import Recurrence.Proofs.FirstFault

/-!
Every report on an input can be illustrated.

Reading reports either the number of words or the word that stands for a field
(`Diagnostic.cases_of_parse`). The span of a word lies between characters of its input, so the
word is underlined: two columns for the indent and one for each character before it, then one
caret for each of its characters (`Diagnostic.underline?_span`). So there never is a place that
cannot be underlined (`Diagnostic.exists_illustrate?_of_parse`), and the illustration of a field
ends with the line that underlines its word (`Diagnostic.illustrate?_of_parse_field`).
-/

set_option autoImplicit false
set_option relaxedAutoImplicit false

namespace Recurrence.Diagnostic

open Recurrence.Text

variable {input token reason source : String} {field : Field} {span : Span} {word : Word}
  {diagnostic : Diagnostic}

/-- The line that marks the characters of a word behind those before it, two columns in. -/
def marksUnder (before letters : List Char) : List Char :=
  List.replicate (before.length + 2) ' ' ++ List.replicate letters.length '^'

/-- A word stands between what is before it and what is after it, as far into the input as what
is before it takes up, and it is underlined character by character. -/
theorem underline?_span (hword : word ∈ words input.toList) :
    ∃ before after, input.toList = before ++ (word.letters ++ after) ∧
      word.start = byteCount before ∧ IsMaximal before word.letters after ∧
      underline? word.span input = some (String.ofList (marksUnder before word.letters)) := by
  have hrun : IsRunFrom 0 input.toList word := mem_wordsFrom_iff.mp hword
  have hmarked := hrun.slice?_span
  obtain ⟨before, after, htext, hstart, hmaximal⟩ := hrun
  rw [Nat.zero_add] at hstart
  have hbefore : slice? ⟨0, word.span.start⟩ input.toList = some before := by
    rw [Word.span, hstart, htext, slice?_front]
  have hlength := List.length_pos_iff.mpr hmaximal.ne_nil
  refine ⟨before, after, htext, hstart, hmaximal, ?_⟩
  rw [underline?, hbefore, Option.bind_some, hmarked, Option.map_some, Nat.max_eq_left hlength,
    marksUnder]

/-- What reading an input reports is the number of its words, or the word at the place of a
field. -/
theorem cases_of_parse (h : Expression.parse input = .error diagnostic) :
    (∃ found, diagnostic = .fieldCount found input) ∨
      ∃ field reason word, (words input.toList)[field.index]? = some word ∧
        diagnostic = .field field word.text word.span input reason := by
  by_cases hcount : (words input.toList).length = 5
  · obtain ⟨place, hplace⟩ := Expression.exists_place hcount
    rcases exists_expression_or_firstRefused fun field ↦ (place field).text with
      ⟨expression, hread⟩ | ⟨field, reason, hrefused⟩
    · rw [Expression.parse_of_read hplace hread] at h
      cases h
    · rw [Expression.parse_of_firstRefused hplace hrefused] at h
      cases h
      refine Or.inr ⟨field, reason, place field, ?_, rfl⟩
      rw [hplace]
      cases field <;> rfl
  · rw [Expression.parse_of_length_ne hcount] at h
    cases h
    exact Or.inl ⟨_, rfl⟩

/-- What reading an input reports can be illustrated. -/
theorem exists_illustrate?_of_parse (h : Expression.parse input = .error diagnostic) :
    ∃ illustration, diagnostic.illustrate? = some illustration := by
  rcases cases_of_parse h with ⟨found, rfl⟩ | ⟨field, reason, word, hword, rfl⟩
  · exact ⟨_, rfl⟩
  · obtain ⟨_, _, -, -, -, hmarks⟩ := underline?_span (List.mem_of_getElem? hword)
    rw [illustrate?, hmarks]
    exact ⟨_, rfl⟩

/-- The word that is reported about a field stands at the place of the field in the input, and
the illustration of the report ends with the line that underlines it. -/
theorem exists_place_of_parse_field
    (h : Expression.parse input = .error (.field field token span source reason)) :
    source = input ∧ ∃ before after,
      (words input.toList)[field.index]? = some ⟨byteCount before, token.toList⟩ ∧
      input.toList = before ++ (token.toList ++ after) ∧
      IsMaximal before token.toList after ∧
      span = ⟨byteCount before, byteCount before + byteCount token.toList⟩ ∧
      (Diagnostic.field field token span source reason).illustrate? =
        some ((Diagnostic.field field token span source reason).headline ++ "\n  " ++ input ++
          "\n" ++ String.ofList (marksUnder before token.toList)) := by
  rcases cases_of_parse h with ⟨found, hcount⟩ | ⟨_, _, word, hword, hfield⟩
  · cases hcount
  · cases hfield
    obtain ⟨before, after, htext, hstart, hmaximal, hmarks⟩ :=
      underline?_span (List.mem_of_getElem? hword)
    have htoken : word.text.toList = word.letters := String.toList_ofList
    refine ⟨rfl, before, after, ?_, ?_, ?_, ?_, ?_⟩
    · rw [hword, htoken, ← hstart]
    · rw [htoken]
      exact htext
    · rw [htoken]
      exact hmaximal
    · rw [htoken, Word.span, hstart]
    · rw [htoken, illustrate?, hmarks, Option.map_some]

/-- A report about a field shows, under its headline, the input as it is, two columns in, and
under that spaces as far as the word that stands for the field, and a caret for each character of
the word. -/
theorem illustrate?_of_parse_field
    (h : Expression.parse input = .error (.field field token span source reason)) :
    ∃ before after,
      (words input.toList)[field.index]? = some ⟨byteCount before, token.toList⟩ ∧
      input.toList = before ++ (token.toList ++ after) ∧
      IsMaximal before token.toList after ∧
      1 ≤ token.length ∧
      (Diagnostic.field field token span source reason).illustrate? =
        some ("error: " ++ (Diagnostic.field field token span source reason).message ++ "\n  " ++
          input ++ "\n" ++ String.ofList
            (List.replicate (2 + before.length) ' ' ++ List.replicate token.length '^')) := by
  obtain ⟨-, before, after, hword, htext, hmaximal, -, hshown⟩ := exists_place_of_parse_field h
  have hlength : token.toList.length = token.length := String.length_toList
  refine ⟨before, after, hword, htext, hmaximal, ?_, ?_⟩
  · rw [← hlength]
    exact List.length_pos_iff.mpr hmaximal.ne_nil
  · rw [hshown, marksUnder, hlength, Nat.add_comm before.length 2]
    rfl

/-- An input whose third word and white space take up more bytes than characters. -/
def wideInput : String :=
  "5\u3000*\u2003é😀\u0085* *"

/-- The report on the third word of this input. -/
def wideReport : Diagnostic :=
  .field .dayOfMonth "é😀" ⟨8, 14⟩ wideInput "'é😀' is not a value in 1-31"

/-- Eight bytes before the word are four characters, and its six bytes are two. -/
theorem illustrate?_wideReport :
    Expression.parse wideInput = .error wideReport ∧
    (∃ before after, wideInput.toList = before ++ ("é😀".toList ++ after) ∧
      byteCount before = 8 ∧
      wideReport.illustrate? = some ("error: " ++ wideReport.message ++ "\n  " ++ wideInput ++
        "\n" ++ String.ofList (List.replicate (2 + before.length) ' ' ++ ['^', '^']))) ∧
    wideReport.illustrate? =
      some ("error: invalid day-of-month field 'é😀' (accepted range 1-31): " ++
        "'é😀' is not a value in 1-31\n  5\u3000*\u2003é😀\u0085* *\n      ^^") := by
  have hparse : Expression.parse wideInput = .error wideReport := by decide +kernel
  have hthird : (words wideInput.toList)[2]? = some ⟨8, "é😀".toList⟩ := by decide +kernel
  obtain ⟨before, after, hword, htext, -, -, hshown⟩ := illustrate?_of_parse_field hparse
  have hstart : byteCount before = 8 :=
    congrArg Word.start (Option.some.inj (hword.symm.trans hthird))
  exact ⟨hparse, ⟨before, after, htext, hstart, hshown⟩, by decide +kernel⟩

end Recurrence.Diagnostic
