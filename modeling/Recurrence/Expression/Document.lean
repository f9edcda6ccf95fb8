import Recurrence.Expression.Text
import Recurrence.Pattern.Document

/-!
Expressions as documents: the text beside the tagged pattern of every field. The text
alone does not tell a list of one value from that value, the tagged patterns do.
-/

set_option autoImplicit false
set_option relaxedAutoImplicit false

namespace Recurrence.Expression

/-- The tagged patterns of an expression under the names of their fields, written as keys. -/
def fieldsDocument (expression : Expression) : Document :=
  .collect (Field.all.map fun field ↦ (field.underscored, (expression.get field).document))

/-- The document of an expression, its keys in alphabetical order. -/
def document (expression : Expression) : Document :=
  .object [("expression", .text expression.text), ("fields", expression.fieldsDocument)]

/-- The pattern of a field in an object with one tagged pattern under each key. -/
def patternOfFields? (source : Document) (field : Field) : Option Pattern :=
  (source.entry? field.key).bind Pattern.ofDocument?

/-- The expression of an object with one tagged pattern under each key. -/
def ofFieldsDocument? (source : Document) : Option Expression := do
  let minute ← patternOfFields? source .minute
  let hour ← patternOfFields? source .hour
  let dayOfMonth ← patternOfFields? source .dayOfMonth
  let month ← patternOfFields? source .month
  let dayOfWeek ← patternOfFields? source .dayOfWeek
  return { minute, hour, dayOfMonth, month, dayOfWeek }

/-- The document that an expression is stored as: its text. -/
def stored (expression : Expression) : Document :=
  .text expression.text

/-- Why a stored expression cannot be used: it is no text, or a text that cannot be
read. -/
inductive StoredFault
  | notText
  | unreadable (diagnostic : Diagnostic)

/-- The expression that a document stores as its text. -/
def ofStored (source : Document) : Logged (Except StoredFault Expression) :=
  match source.text? with
  | none => return .error .notText
  | some input => return (← parseLogged input).mapError .unreadable

end Recurrence.Expression
