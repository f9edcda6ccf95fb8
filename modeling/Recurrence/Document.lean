import Recurrence.Text.Decimal

/-!
Structured values for exchange with other programs, and their JSON text: on one line,
or one item a line with indentation. The entries of an object keep the order in which
they are listed.
-/

set_option autoImplicit false
set_option relaxedAutoImplicit false

namespace Recurrence

open Recurrence.Text

/-- A structured value. A fraction is its digits without the point and the number of
them behind it, so a whole number written with a point stays apart from an integer. -/
inductive Document
  | null
  | boolean (value : Bool)
  | integer (value : Int)
  | fraction (digits : Int) (places : Nat)
  | text (value : String)
  | array (items : List Document)
  | object (entries : List (String × Document))
deriving Inhabited

namespace Document

/-! ### Looking up -/

/-- The first entry of an object under a key. -/
def entry? (key : String) : Document → Option Document
  | object entries => (entries.find? fun entry ↦ entry.1 = key).map Prod.snd
  | _ => none

/-- The keys of an object in the order of its entries. -/
def keys : Document → List String
  | object entries => entries.map Prod.fst
  | _ => []

/-- The content of a text value. -/
def text? : Document → Option String
  | text value => some value
  | _ => none

/-- The items of an array. -/
def items? : Document → Option (List Document)
  | array items => some items
  | _ => none

/-- An integer that fits a byte. -/
def byte? : Document → Option UInt8
  | integer value =>
    if 0 ≤ value ∧ value < 256 then some (UInt8.ofNat value.toNat) else none
  | _ => none

theorem byte?_integer (value : UInt8) : byte? (integer value.toNat) = some value := by
  have h := value.toNat_lt
  simp only [byte?]
  split
  · simp
  · omega

/-! ### Collecting entries -/

/-- Entries with one more among them: before the first with a greater key, or in place of one
with the same key. -/
def put (key : String) (value : Document) : List (String × Document) → List (String × Document)
  | [] => [(key, value)]
  | entry :: rest =>
    if key < entry.1 then (key, value) :: entry :: rest
    else if key = entry.1 then (key, value) :: rest
    else entry :: put key value rest

/-- The object of entries in any order: its keys ascend, and of entries with the same key the
last counts. -/
def collect (entries : List (String × Document)) : Document :=
  object (entries.foldl (fun collected entry ↦ put entry.1 entry.2 collected) [])

theorem lookup_object_cons (key other : String) (value : Document)
    (rest : List (String × Document)) :
    entry? other (object ((key, value) :: rest)) =
      if key = other then some value else entry? other (object rest) := by
  by_cases h : key = other <;> simp [ entry?, h]

/-- What is put under a key is found there, and the other keys keep what they hold. -/
theorem lookup_put (key other : String) (value : Document) (entries : List (String × Document)) :
    entry? other (object (put key value entries)) =
      if key = other then some value else entry? other (object entries) := by
  induction entries with
  | nil => rw [put, lookup_object_cons]
  | cons entry rest ih =>
    unfold put
    split
    · rw [lookup_object_cons]
    · split
      · rename_i hsame
        rw [lookup_object_cons, lookup_object_cons, ← hsame]
        split <;> rfl
      · rename_i hne
        rw [lookup_object_cons, ih, lookup_object_cons]
        grind

theorem mem_keys_put {key other : String} {value : Document} {entries : List (String × Document)} :
    other ∈ (put key value entries).map Prod.fst ↔ other = key ∨ other ∈ entries.map Prod.fst := by
  induction entries with
  | nil => simp [put]
  | cons entry rest ih =>
    unfold put
    split
    · simp
    · split
      · rename_i hsame
        simp [hsame]
      · rw [List.map_cons, List.mem_cons, ih, List.map_cons, List.mem_cons]
        exact or_left_comm

/-! ### Writing -/

/-- A character inside a quoted text: quotes, backslashes and control characters are
escaped. -/
def escape (character : Char) : List Char :=
  if character = '"' then ['\\', '"']
  else if character = '\\' then ['\\', '\\']
  else if character = '\n' then ['\\', 'n']
  else if character = '\r' then ['\\', 'r']
  else if character = '\t' then ['\\', 't']
  else if character = Char.ofNat 8 then ['\\', 'b']
  else if character = Char.ofNat 12 then ['\\', 'f']
  else if character.toNat < 32 then
    ['\\', 'u', '0', '0', Nat.digitChar (character.toNat / 16),
      Nat.digitChar (character.toNat % 16)]
  else [character]

/-- A text between quotes. -/
def quote (value : String) : List Char :=
  '"' :: (value.toList.flatMap escape ++ ['"'])

/-- The digits of an integer, with a minus sign below 0. -/
def writeInteger (value : Int) : List Char :=
  if value < 0 then '-' :: Decimal.write value.natAbs else Decimal.write value.natAbs

/-- The digits of a fraction around its point. -/
def writeFraction (digits : Int) (places : Nat) : List Char :=
  let unit := Nat.pow 10 places
  let whole := Decimal.write (digits.natAbs / unit)
  let behind := Decimal.writePadded places (digits.natAbs % unit)
  (if digits < 0 then ['-'] else []) ++ whole ++ '.' :: behind

/-- How the parts of a composite value are set apart. -/
inductive Layout
  /-- All on one line, without spaces. -/
  | compact
  /-- Each part on a line of its own, two spaces further in than what holds it. -/
  | indented
deriving DecidableEq

namespace Layout

/-- What stands before a part at a depth. -/
def lineBreak (layout : Layout) (depth : Nat) : List Char :=
  match layout with
  | compact => []
  | indented => '\n' :: List.replicate (2 * depth) ' '

/-- What stands between a key and its value. -/
def colon : Layout → List Char
  | compact => [':']
  | indented => [':', ' ']

/-- Written parts at a depth between two brackets; without parts the brackets touch. -/
def enclose (layout : Layout) (depth : Nat) (opening closing : Char) (parts : List (List Char)) :
    List Char :=
  if parts = [] then
    [opening, closing]
  else
    opening :: ([','].intercalate (parts.map (layout.lineBreak (depth + 1) ++ ·)) ++
      layout.lineBreak depth ++ [closing])

end Layout

mutual

/-- The JSON text of a value at a depth. -/
def writeAt (layout : Layout) (depth : Nat) : Document → List Char
  | null => ['n', 'u', 'l', 'l']
  | boolean true => ['t', 'r', 'u', 'e']
  | boolean false => ['f', 'a', 'l', 's', 'e']
  | integer value => writeInteger value
  | fraction digits places => writeFraction digits places
  | text value => quote value
  | array items => layout.enclose depth '[' ']' (writeItems layout (depth + 1) items)
  | object entries =>
    layout.enclose depth '\x7b' '\x7d' (writeEntries layout (depth + 1) entries)

/-- The JSON texts of the items of an array at a depth. -/
def writeItems (layout : Layout) (depth : Nat) : List Document → List (List Char)
  | [] => []
  | item :: rest => writeAt layout depth item :: writeItems layout depth rest

/-- The JSON texts of the entries of an object at a depth. -/
def writeEntries (layout : Layout) (depth : Nat) :
    List (String × Document) → List (List Char)
  | [] => []
  | (key, value) :: rest =>
    (quote key ++ layout.colon ++ writeAt layout depth value) ::
      writeEntries layout depth rest

end

/-- The JSON text of a value. -/
def render (layout : Layout) (document : Document) : String :=
  String.ofList (document.writeAt layout 0)

end Document

end Recurrence
