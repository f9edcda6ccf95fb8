import Recurrence.Calendar.Minute

/-!
A calendar minute with its second and nanosecond. Forgetting those two truncates a
date-time to its minute, and a minute is no later than a date-time exactly when it
is no later than the truncation (`start_le_iff`).
-/

set_option autoImplicit false
set_option relaxedAutoImplicit false

namespace Recurrence.Calendar

/-- A date and a time of day, without a time zone. -/
structure DateTime extends CalendarMinute where
  second : Nat
  nanosecond : Nat
  second_lt : second < 60
  nanosecond_lt : nanosecond < 1000000000

/-- The start of a minute. -/
def CalendarMinute.start (moment : CalendarMinute) : DateTime :=
  { moment with
    second := 0, nanosecond := 0
    second_lt := Nat.zero_lt_of_lt moment.minute_lt
    nanosecond_lt := by decide }

namespace DateTime

/-- The date-time with the given parts, if the calendar has one. -/
def ofParts? (year : Int) (month day hour minute second nanosecond : Nat) : Option DateTime :=
  (CalendarMinute.ofParts? year month day hour minute).bind fun moment ↦
    if h : second < 60 ∧ nanosecond < 1000000000 then
      some { moment with second, nanosecond, second_lt := h.1, nanosecond_lt := h.2 }
    else
      none

/-- The minute that a date-time lies in. -/
def truncate (moment : DateTime) : CalendarMinute :=
  moment.toCalendarMinute

/-- Nanoseconds counted from the start of day 0. -/
def instant (moment : DateTime) : Int :=
  (moment.truncate.number * 60 + moment.second) * 1000000000 + moment.nanosecond

/-- Date-times are ordered in time. -/
instance : LE DateTime :=
  ⟨fun earlier later ↦ earlier.instant ≤ later.instant⟩

instance : LT DateTime :=
  ⟨fun earlier later ↦ earlier.instant < later.instant⟩

instance (earlier later : DateTime) : Decidable (earlier ≤ later) :=
  inferInstanceAs (Decidable (earlier.instant ≤ later.instant))

instance (earlier later : DateTime) : Decidable (earlier < later) :=
  inferInstanceAs (Decidable (earlier.instant < later.instant))

theorem le_def (earlier later : DateTime) : earlier ≤ later ↔ earlier.instant ≤ later.instant :=
  Iff.rfl

theorem lt_def (earlier later : DateTime) : earlier < later ↔ earlier.instant < later.instant :=
  Iff.rfl

@[simp]
theorem truncate_start (moment : CalendarMinute) : moment.start.truncate = moment :=
  rfl

/-- A minute starts no later than a date-time exactly when it is no later than the
minute of the date-time. -/
theorem start_le_iff (moment : CalendarMinute) (bound : DateTime) :
    moment.start ≤ bound ↔ moment ≤ bound.truncate := by
  have hs := bound.second_lt
  have hn := bound.nanosecond_lt
  rw [le_def, CalendarMinute.le_def]
  simp only [instant, truncate_start]
  simp only [CalendarMinute.start]
  omega

end DateTime

end Recurrence.Calendar
