import Recurrence.Document
import Recurrence.Pattern.Basic

/-!
Patterns as tagged documents: `kind` names the shape and the other keys hold its
bytes. Reading such a document asks only that the payloads are bytes, so every pattern
comes back as it was (`ofDocument?_document`).
-/

set_option autoImplicit false
set_option relaxedAutoImplicit false

namespace Recurrence.Pattern

/-- A byte as a document. -/
def byteDocument (value : UInt8) : Document :=
  .integer value.toNat

/-- The tagged document of a pattern, its keys in alphabetical order. -/
def document : Pattern → Document
  | number value => .object [("kind", .text "number"), ("value", byteDocument value)]
  | wildcard => .object [("kind", .text "wildcard")]
  | step increment => .object [("kind", .text "step"), ("step", byteDocument increment)]
  | stepFrom start increment =>
    .object [("from", byteDocument start), ("kind", .text "step_from"),
      ("step", byteDocument increment)]
  | stepRange first last increment =>
    .object [("from", byteDocument first), ("kind", .text "step_range"),
      ("step", byteDocument increment), ("to", byteDocument last)]
  | range first last =>
    .object [("from", byteDocument first), ("kind", .text "range"), ("to", byteDocument last)]
  | list values =>
    .object [("kind", .text "list"), ("values", .array (values.members.map byteDocument))]

/-- The byte that a document holds under a key. -/
def payload? (source : Document) (key : String) : Option UInt8 :=
  (source.entry? key).bind Document.byte?

/-- The pattern of a tagged document: every payload of its kind has to be a byte, and
other keys are ignored. -/
def ofDocument? (source : Document) : Option Pattern := do
  let kind ← (source.entry? "kind").bind Document.text?
  if kind = "number" then
    return number (← payload? source "value")
  else if kind = "wildcard" then
    return wildcard
  else if kind = "step" then
    return step (← payload? source "step")
  else if kind = "step_from" then
    return stepFrom (← payload? source "from") (← payload? source "step")
  else if kind = "step_range" then
    return stepRange (← payload? source "from") (← payload? source "to")
      (← payload? source "step")
  else if kind = "range" then
    return range (← payload? source "from") (← payload? source "to")
  else if kind = "list" then
    let items ← (source.entry? "values").bind Document.items?
    return list (ByteSet.ofList (← items.mapM Document.byte?))
  else
    none

theorem byte?_byteDocument (value : UInt8) : (byteDocument value).byte? = some value :=
  Document.byte?_integer value

/-- The bytes of a list come back from their documents. -/
theorem mapM_byte?_comp_byteDocument (values : List UInt8) :
    values.mapM (Document.byte? ∘ byteDocument) = some values := by
  induction values with
  | nil => rfl
  | cons head rest ih => simp [ih, byte?_byteDocument]

/-- Every pattern comes back from its document as it was. -/
theorem ofDocument?_document (pattern : Pattern) : ofDocument? pattern.document = some pattern := by
  cases pattern with
  | list values =>
    simp [document, ofDocument?, Document.entry?, Document.text?, Document.items?,
      mapM_byte?_comp_byteDocument, ByteSet.ofList_members]
  | _ =>
    simp [document, ofDocument?, Document.entry?, Document.text?, payload?,
      byte?_byteDocument]

end Recurrence.Pattern
