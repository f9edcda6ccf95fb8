import Recurrence.Text.Blank

/-!
The words of a text: its maximal runs of characters that are not white space, in
order, each with its place counted in bytes of UTF-8.
-/

set_option autoImplicit false
set_option relaxedAutoImplicit false

namespace Recurrence.Text

/-- The number of bytes that characters take in UTF-8. -/
def byteCount (characters : List Char) : Nat :=
  characters.foldr (fun character count ↦ character.utf8Size + count) 0

/-- A range of bytes, the end not included. -/
structure Span where
  start : Nat
  stop : Nat
deriving DecidableEq

namespace Span

/-- A span is written as its two ends. -/
def text (span : Span) : String :=
  Nat.repr span.start ++ ".." ++ Nat.repr span.stop

end Span

/-- A run of characters and the number of bytes before it. -/
structure Word where
  start : Nat
  letters : List Char
deriving DecidableEq

namespace Word

/-- The bytes that a word takes up. -/
def span (word : Word) : Span :=
  ⟨word.start, word.start + byteCount word.letters⟩

/-- The word without its place. -/
def text (word : Word) : String :=
  String.ofList word.letters

end Word

/-- The words of a text that starts after so many bytes. -/
def wordsFrom (start : Nat) : List Char → List Word
  | [] => []
  | character :: rest =>
    if isBlank character then
      wordsFrom (start + character.utf8Size) rest
    else
      let letters := character :: rest.takeWhile (!isBlank ·)
      ⟨start, letters⟩ :: wordsFrom (start + byteCount letters) (rest.dropWhile (!isBlank ·))
termination_by text => text.length
decreasing_by
  · simp
  · have := (List.dropWhile_suffix (!isBlank ·) (l := rest)).length_le
    simp only [List.length_cons]
    omega

/-- The words of a text. -/
def words (text : List Char) : List Word :=
  wordsFrom 0 text

/-- The characters of a text from one byte place up to another, if both are places
between characters and the first is not behind the second. -/
def slice? (span : Span) : List Char → Option (List Char)
  | [] => if span.start = 0 ∧ span.stop = 0 then some [] else none
  | character :: rest =>
    if span.stop = 0 then
      if span.start = 0 then some [] else none
    else if span.stop < character.utf8Size then
      none
    else if span.start = 0 then
      (slice? ⟨0, span.stop - character.utf8Size⟩ rest).map (character :: ·)
    else if span.start < character.utf8Size then
      none
    else
      slice? ⟨span.start - character.utf8Size, span.stop - character.utf8Size⟩ rest

end Recurrence.Text
