import Recurrence.Pattern.Basic

/-!
An expression: one pattern for each of the five fields.
-/

set_option autoImplicit false
set_option relaxedAutoImplicit false

namespace Recurrence

/-- One pattern for each field. -/
structure Expression where
  minute : Pattern
  hour : Pattern
  dayOfMonth : Pattern
  month : Pattern
  dayOfWeek : Pattern
deriving DecidableEq

namespace Expression

/-- The pattern of a field. -/
def get (expression : Expression) : Field → Pattern
  | .minute => expression.minute
  | .hour => expression.hour
  | .dayOfMonth => expression.dayOfMonth
  | .month => expression.month
  | .dayOfWeek => expression.dayOfWeek

/-- The expression with another pattern in one field. -/
def set (expression : Expression) (field : Field) (pattern : Pattern) : Expression :=
  match field with
  | .minute => { expression with minute := pattern }
  | .hour => { expression with hour := pattern }
  | .dayOfMonth => { expression with dayOfMonth := pattern }
  | .month => { expression with month := pattern }
  | .dayOfWeek => { expression with dayOfWeek := pattern }

/-- The expression that says nothing about any field. -/
def always : Expression :=
  ⟨.wildcard, .wildcard, .wildcard, .wildcard, .wildcard⟩

/-- The expression of patterns given field by field. -/
def ofFields (pattern : Field → Pattern) : Expression :=
  ⟨pattern .minute, pattern .hour, pattern .dayOfMonth, pattern .month, pattern .dayOfWeek⟩

@[simp]
theorem get_ofFields (pattern : Field → Pattern) (field : Field) :
    (ofFields pattern).get field = pattern field := by
  cases field <;> rfl

@[simp]
theorem ofFields_get (expression : Expression) : ofFields expression.get = expression :=
  rfl

@[simp]
theorem get_set_self (expression : Expression) (field : Field) (pattern : Pattern) :
    (expression.set field pattern).get field = pattern := by
  cases field <;> rfl

theorem get_set_of_ne (expression : Expression) {field other : Field} (pattern : Pattern)
    (h : other ≠ field) : (expression.set field pattern).get other = expression.get other := by
  cases field <;> cases other <;> simp_all [get, set]

/-- Expressions that agree in every field are equal. -/
theorem eq_of_get {first second : Expression} (h : ∀ field, first.get field = second.get field) :
    first = second := by
  rw [← ofFields_get first, ← ofFields_get second, funext h]

end Expression

end Recurrence
