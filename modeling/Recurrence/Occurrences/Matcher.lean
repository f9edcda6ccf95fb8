import Recurrence.Calendar.DateTime
import Recurrence.Expression.Basic
import Recurrence.Occurrences.ValueSet

/-!
An expression with every field expanded into the set of its values. A minute matches
when all five sets hold its parts; day of month and weekday must both agree.
-/

set_option autoImplicit false
set_option relaxedAutoImplicit false

namespace Recurrence.Occurrences

open Recurrence.Calendar

/-- The sets of values of the five fields. -/
structure Matcher where
  minutes : ValueSet
  hours : ValueSet
  days : ValueSet
  months : ValueSet
  weekdays : ValueSet
deriving DecidableEq

namespace Matcher

/-- The values that an expression selects in each field. -/
def ofExpression (expression : Expression) : Matcher :=
  let values (field : Field) := ValueSet.ofPattern field.bounds (expression.get field)
  { minutes := values .minute
    hours := values .hour
    days := values .dayOfMonth
    months := values .month
    weekdays := values .dayOfWeek }

/-- Some field selects nothing, so that no minute matches. -/
def hasEmptyField (matcher : Matcher) : Bool :=
  matcher.minutes.isEmpty || matcher.hours.isEmpty || matcher.days.isEmpty ||
    matcher.months.isEmpty || matcher.weekdays.isEmpty

/-- All five parts of a minute are selected. -/
def admits (matcher : Matcher) (moment : CalendarMinute) : Bool :=
  matcher.months.contains moment.date.month && matcher.days.contains moment.date.day &&
    matcher.weekdays.contains moment.date.weekday && matcher.hours.contains moment.hour &&
    matcher.minutes.contains moment.minute

/-- The values that one field of a matcher selects. -/
def get (matcher : Matcher) : Field → ValueSet
  | .minute => matcher.minutes
  | .hour => matcher.hours
  | .dayOfMonth => matcher.days
  | .month => matcher.months
  | .dayOfWeek => matcher.weekdays

end Matcher

end Recurrence.Occurrences

namespace Recurrence.Expression

open Recurrence.Calendar Recurrence.Occurrences

/-- A date-time matches an expression when its minute does; seconds do not count. -/
def matchesAt (expression : Expression) (moment : DateTime) : Bool :=
  (Matcher.ofExpression expression).admits moment.truncate

/-- The values of a field's domain that a pattern selects in an expression that says
nothing about the other fields, ascending. -/
def selected (field : Field) (pattern : Pattern) : List Nat :=
  let set := (Matcher.ofExpression (always.set field pattern)).get field
  (List.range (field.bounds.greatest.toNat + 1)).filter set.contains

end Recurrence.Expression
