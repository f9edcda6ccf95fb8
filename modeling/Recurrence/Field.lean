import Recurrence.Text.Alignment

/-!
The five fields of an expression, in the order of its text, and the values that each
one may take.
-/

set_option autoImplicit false
set_option relaxedAutoImplicit false

namespace Recurrence

/-- The least and the greatest value of a domain. -/
structure Bounds where
  least : UInt8
  greatest : UInt8
deriving DecidableEq

namespace Bounds

/-- A number lies between the bounds, which belong to the domain. -/
def Admits (bounds : Bounds) (number : Nat) : Prop :=
  bounds.least.toNat ≤ number ∧ number ≤ bounds.greatest.toNat

instance (bounds : Bounds) (number : Nat) : Decidable (bounds.Admits number) :=
  inferInstanceAs (Decidable (_ ∧ _))

/-- The domain as it is shown to a user. -/
def text (bounds : Bounds) : String :=
  Nat.repr bounds.least.toNat ++ "-" ++ Nat.repr bounds.greatest.toNat

end Bounds

/-- One of the five positions of an expression. -/
inductive Field
  | minute
  | hour
  | dayOfMonth
  | month
  | dayOfWeek
deriving DecidableEq

namespace Field

/-- The fields in the order of the text. -/
def all : List Field :=
  [minute, hour, dayOfMonth, month, dayOfWeek]

/-- The place of a field in the text, counted from 0. -/
def index : Field → Nat
  | minute => 0
  | hour => 1
  | dayOfMonth => 2
  | month => 3
  | dayOfWeek => 4

/-- The domain of a field; weekdays count from Sunday = 0. -/
def bounds : Field → Bounds
  | minute => ⟨0, 59⟩
  | hour => ⟨0, 23⟩
  | dayOfMonth => ⟨1, 31⟩
  | month => ⟨1, 12⟩
  | dayOfWeek => ⟨0, 6⟩

/-- The name of a field in messages. -/
def name : Field → String
  | minute => "minute"
  | hour => "hour"
  | dayOfMonth => "day-of-month"
  | month => "month"
  | dayOfWeek => "day-of-week"

/-- The name of a field in a column. -/
def shownIn (field : Field) (column : Text.Column) : String :=
  column.layOut field.name

/-- The key of a field in documents. -/
def key : Field → String
  | minute => "minute"
  | hour => "hour"
  | dayOfMonth => "day_of_month"
  | month => "month"
  | dayOfWeek => "day_of_week"

/-- The name of a field with underscores in place of its hyphens. -/
def underscored (field : Field) : String :=
  String.ofList (field.name.toList.map fun character ↦ if character = '-' then '_' else character)

/-- The field with a given key. -/
def ofKey? (text : String) : Option Field :=
  all.find? fun field ↦ field.key = text

theorem mem_all (field : Field) : field ∈ all := by
  cases field <;> decide

/-- In a column without a least width and a greatest length stands the name. -/
theorem shownIn_default (field : Field) : field.shownIn {} = field.name :=
  Text.Column.layOut_default field.name

/-- With underscores, the name of a field is its key. -/
theorem underscored_eq_key (field : Field) : field.underscored = field.key := by
  cases field <;> decide

theorem ofKey?_key (field : Field) : ofKey? field.key = some field := by
  cases field <;> decide

end Field

end Recurrence
