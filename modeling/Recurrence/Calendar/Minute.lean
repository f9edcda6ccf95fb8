import Recurrence.Calendar.Date

/-!
The unit in which schedules are stated: one minute of one date. A minute's number
counts minutes without a gap across days, months and years, and orders minutes in
time.
-/

set_option autoImplicit false
set_option relaxedAutoImplicit false

namespace Recurrence.Calendar

/-- One minute of one date. -/
structure CalendarMinute where
  date : Date
  hour : Nat
  minute : Nat
  hour_lt : hour < 24
  minute_lt : minute < 60
deriving DecidableEq

namespace CalendarMinute

/-- The minute with the given parts, if the calendar has one. -/
def ofParts? (year : Int) (month day hour minute : Nat) : Option CalendarMinute :=
  (Date.ofParts? year month day).bind fun date ↦
    if h : hour < 24 ∧ minute < 60 then some ⟨date, hour, minute, h.1, h.2⟩ else none

/-- Minutes counted from the first one of day 0. -/
def number (moment : CalendarMinute) : Int :=
  (moment.date.number * 24 + moment.hour) * 60 + moment.minute

/-- Minutes are ordered in time. -/
instance : LE CalendarMinute :=
  ⟨fun earlier later ↦ earlier.number ≤ later.number⟩

instance : LT CalendarMinute :=
  ⟨fun earlier later ↦ earlier.number < later.number⟩

instance (earlier later : CalendarMinute) : Decidable (earlier ≤ later) :=
  inferInstanceAs (Decidable (earlier.number ≤ later.number))

instance (earlier later : CalendarMinute) : Decidable (earlier < later) :=
  inferInstanceAs (Decidable (earlier.number < later.number))

/-- The first minute of a date. -/
def midnight (date : Date) : CalendarMinute :=
  ⟨date, 0, 0, by decide, by decide⟩

/-- The last minute of the calendar. -/
def last : CalendarMinute :=
  ⟨⟨9999, 12, 31, by decide, by decide, by decide⟩, 23, 59, by decide, by decide⟩

/-- The minute after: the next of the hour, else the first of the next hour, else
the first of the next day. The last minute of the calendar has none. -/
def next? (moment : CalendarMinute) : Option CalendarMinute :=
  if hm : moment.minute + 1 < 60 then
    some { moment with minute := moment.minute + 1, minute_lt := hm }
  else if hh : moment.hour + 1 < 24 then
    some { moment with hour := moment.hour + 1, minute := 0, hour_lt := hh, minute_lt := by decide }
  else
    moment.date.next?.map midnight

/-- The minutes that follow a minute, up to the last one of the calendar. -/
def followers (moment : CalendarMinute) : Nat :=
  (last.number - moment.number).toNat

theorem le_def (earlier later : CalendarMinute) :
    earlier ≤ later ↔ earlier.number ≤ later.number :=
  Iff.rfl

theorem lt_def (earlier later : CalendarMinute) :
    earlier < later ↔ earlier.number < later.number :=
  Iff.rfl

end CalendarMinute

end Recurrence.Calendar
