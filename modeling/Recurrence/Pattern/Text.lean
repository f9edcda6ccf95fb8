import Recurrence.Names
import Recurrence.Pattern.Basic
import Recurrence.Text.Split

/-!
The text of a pattern, and the reader of that text for a domain. A text with a slash
is a progression, else one with a hyphen a range, else one with a comma a list; each
bound and entry is a number or a name. Every refusal is one of three faults, and it
quotes the first piece that is at fault.
-/

set_option autoImplicit false
set_option relaxedAutoImplicit false

namespace Recurrence

open Recurrence.Text

/-! ### Writing -/

namespace Pattern

/-- The text of a pattern; the values of a list stand in ascending order. -/
def write : Pattern → List Char
  | number value => Decimal.write value.toNat
  | wildcard => ['*']
  | step increment => '*' :: '/' :: Decimal.write increment.toNat
  | stepFrom start increment =>
    Decimal.write start.toNat ++ '/' :: Decimal.write increment.toNat
  | stepRange first last increment =>
    Decimal.write first.toNat ++ '-' :: Decimal.write last.toNat ++
      '/' :: Decimal.write increment.toNat
  | range first last => Decimal.write first.toNat ++ '-' :: Decimal.write last.toNat
  | list values => [','].intercalate (values.members.map fun value ↦ Decimal.write value.toNat)

/-- The text of a pattern as a string. -/
def text (pattern : Pattern) : String :=
  String.ofList pattern.write

end Pattern

/-! ### Faults -/

/-- Why a text is no pattern over a domain. -/
inductive PatternFault
  /-- A piece of the text is neither a number nor a name of the domain. -/
  | badValue (piece whole : List Char) (bounds : Bounds)
  /-- What follows the slash is no step between 1 and the greatest value. -/
  | badStep (step whole : List Char) (greatest : UInt8)
  /-- A range starts after its end. -/
  | reversedRange (whole : List Char)
deriving DecidableEq

namespace PatternFault

/-- A text between single quotes. -/
def quoted (text : List Char) : String :=
  "'" ++ String.ofList text ++ "'"

/-- The wording of a fault; the whole text is named only where the piece is not all of
it. -/
def message : PatternFault → String
  | badValue piece whole bounds =>
    if piece = whole then
      quoted piece ++ " is not a value in " ++ bounds.text
    else
      quoted piece ++ " in " ++ quoted whole ++ " is not a value in " ++ bounds.text
  | badStep step whole greatest =>
    "invalid step " ++ quoted step ++ " in " ++ quoted whole ++ ", expected 1-" ++
      Nat.repr greatest.toNat
  | reversedRange whole => "range start must be <= end in " ++ quoted whole

end PatternFault

/-! ### Reading -/

/-- The greatest number of a word of 32 bits, into which values are read before their
domain is looked at. -/
def greatestWord : Nat := 4294967295

/-- The greatest number of a byte, into which steps are read. -/
def greatestByte : Nat := 255

/-- The value of a domain that a token names: a run of digits or a name. -/
def Bounds.value? (bounds : Bounds) (token : List Char) : Option UInt8 :=
  (Decimal.readUpTo? greatestWord (Names.resolve token)).bind fun number ↦
    if bounds.Admits number then some (UInt8.ofNat number) else none

namespace Pattern

/-- The value of a piece of a text. -/
def readValue (bounds : Bounds) (whole piece : List Char) : Except PatternFault UInt8 :=
  match bounds.value? piece with
  | some value => .ok value
  | none => .error (.badValue piece whole bounds)

/-- A step is a plain number between 1 and the greatest value of the domain. -/
def readStep (bounds : Bounds) (whole piece : List Char) : Except PatternFault UInt8 :=
  match Decimal.readUpTo? greatestByte piece with
  | some found =>
    if 1 ≤ found ∧ found ≤ bounds.greatest.toNat then
      .ok (UInt8.ofNat found)
    else
      .error (.badStep piece whole bounds.greatest)
  | none => .error (.badStep piece whole bounds.greatest)

/-- A progression: the step is judged before the start. -/
def readProgression (bounds : Bounds) (whole base increment : List Char) :
    Except PatternFault Pattern := do
  let size ← readStep bounds whole increment
  if base = ['*'] then
    return .step size
  else
    let start ← readValue bounds whole base
    return .stepFrom start size

/-- A range: both ends are judged, the first before the last, and then their order. -/
def readRange (bounds : Bounds) (whole left right : List Char) :
    Except PatternFault Pattern := do
  let first ← readValue bounds whole left
  let last ← readValue bounds whole right
  if last < first then
    throw (.reversedRange whole)
  else
    return .range first last

/-- The pattern over a domain that a text writes down. -/
def parse (bounds : Bounds) (whole : List Char) : Except PatternFault Pattern :=
  if whole = ['*'] then
    .ok .wildcard
  else
    match cut? '/' whole with
    | some (base, increment) => readProgression bounds whole base increment
    | none =>
      match cut? '-' whole with
      | some (left, right) => readRange bounds whole left right
      | none =>
        if ',' ∈ whole then
          ofValues <$> (whole.splitOn ',').mapM (readValue bounds whole)
        else
          number <$> readValue bounds whole whole

end Pattern

end Recurrence
