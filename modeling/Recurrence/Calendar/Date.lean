/-!
The proleptic Gregorian calendar over the years -9999 to 9999. A `Date` holds the
proof that it exists, and its day number, 1 for the first of January of year 1,
orders dates and fixes weekdays.

A month starts where the month before it ends (`daysBeforeMonth_succ`), a year is
as long as its months (`daysBeforeYear_succ`), and the calendar repeats after 400
years, weekdays included (`dayNumber_add_four_hundred_years`,
`weekday_add_four_hundred_years`).
-/

set_option autoImplicit false
set_option relaxedAutoImplicit false

namespace Recurrence.Calendar

/-- A leap year is a multiple of 4 and, where it is a multiple of 100, one of 400. -/
def IsLeapYear (year : Int) : Prop :=
  year % 4 = 0 ∧ (year % 100 ≠ 0 ∨ year % 400 = 0)

instance (year : Int) : Decidable (IsLeapYear year) :=
  inferInstanceAs (Decidable (_ ∧ _))

/-- The length of a month, counted from January = 1. -/
def daysInMonth (year : Int) (month : Nat) : Nat :=
  if month = 2 then
    if IsLeapYear year then 29 else 28
  else if month = 4 ∨ month = 6 ∨ month = 9 ∨ month = 11 then 30
  else 31

/-- The days from the start of year 1 to the start of a year, negative before year 1. -/
def daysBeforeYear (year : Int) : Int :=
  365 * (year - 1) + (year - 1) / 4 - (year - 1) / 100 + (year - 1) / 400

/-- The days of a year that pass before the first of a month. -/
def daysBeforeMonth (year : Int) : Nat → Nat
  | 0 => 0
  | 1 => 0
  | month + 2 => daysBeforeMonth year (month + 1) + daysInMonth year (month + 1)

/-- Days are numbered from 1 for the first of January of year 1, a Monday. -/
def dayNumber (year : Int) (month day : Nat) : Int :=
  daysBeforeYear year + daysBeforeMonth year month + day

/-- The weekday of a day number, counted from Sunday = 0. -/
def weekdayOfNumber (number : Int) : Nat :=
  (number % 7).toNat

/-- A day of the calendar; only days that exist can be written down. -/
structure Date where
  year : Int
  month : Nat
  day : Nat
  year_bounds : -9999 ≤ year ∧ year ≤ 9999
  month_bounds : 1 ≤ month ∧ month ≤ 12
  day_bounds : 1 ≤ day ∧ day ≤ daysInMonth year month
deriving DecidableEq

namespace Date

/-- The date with the given parts, if the calendar has one. -/
def ofParts? (year : Int) (month day : Nat) : Option Date :=
  if h : (-9999 ≤ year ∧ year ≤ 9999) ∧ (1 ≤ month ∧ month ≤ 12) ∧
      (1 ≤ day ∧ day ≤ daysInMonth year month) then
    some ⟨year, month, day, h.1, h.2.1, h.2.2⟩
  else
    none

/-- The day number of a date. -/
def number (date : Date) : Int :=
  dayNumber date.year date.month date.day

/-- The weekday of a date, counted from Sunday = 0. -/
def weekday (date : Date) : Nat :=
  weekdayOfNumber date.number

/-- The length of the month that a date lies in. -/
def monthLength (date : Date) : Nat :=
  daysInMonth date.year date.month

/-- The day after: the next of the month, else the first of the next month, else
the first of the next year. The last day of year 9999 has none. -/
def next? (date : Date) : Option Date :=
  ofParts? date.year date.month (date.day + 1)
    <|> ofParts? date.year (date.month + 1) 1
    <|> ofParts? (date.year + 1) 1 1

theorem ofParts?_self (date : Date) : ofParts? date.year date.month date.day = some date := by
  simp [ofParts?, date.year_bounds, date.month_bounds, date.day_bounds]

theorem ofParts?_eq_some {year : Int} {month day : Nat} {date : Date}
    (h : ofParts? year month day = some date) :
    date.year = year ∧ date.month = month ∧ date.day = day := by
  unfold ofParts? at h
  split at h
  · cases h
    exact ⟨rfl, rfl, rfl⟩
  · cases h

end Date

/-! ### Lengths -/

theorem daysInMonth_pos (year : Int) (month : Nat) : 1 ≤ daysInMonth year month := by
  unfold daysInMonth
  repeat' split
  all_goals omega

theorem daysInMonth_le (year : Int) (month : Nat) : daysInMonth year month ≤ 31 := by
  unfold daysInMonth
  repeat' split
  all_goals omega

/-- A month starts where the month before it ends. -/
theorem daysBeforeMonth_succ (year : Int) {month : Nat} (h : 1 ≤ month) :
    daysBeforeMonth year (month + 1) = daysBeforeMonth year month + daysInMonth year month := by
  cases month with
  | zero => omega
  | succ month => rfl

/-- The twelve months fill the year. -/
theorem daysBeforeYear_succ (year : Int) :
    daysBeforeYear (year + 1) = daysBeforeYear year + daysBeforeMonth year 13 := by
  have h13 : daysBeforeMonth year 13 = if IsLeapYear year then 366 else 365 := by
    simp only [daysBeforeMonth, daysInMonth]
    by_cases h : IsLeapYear year <;> simp [h]
  rw [h13]
  unfold daysBeforeYear
  by_cases h : IsLeapYear year <;> simp only [h, ↓reduceIte] <;>
    unfold IsLeapYear at h <;> omega

/-! ### The cycle of 400 years -/

theorem isLeapYear_add_four_hundred (year : Int) : IsLeapYear (year + 400) ↔ IsLeapYear year := by
  unfold IsLeapYear
  omega

theorem daysInMonth_add_four_hundred (year : Int) (month : Nat) :
    daysInMonth (year + 400) month = daysInMonth year month := by
  simp only [daysInMonth, isLeapYear_add_four_hundred]

theorem daysBeforeMonth_add_four_hundred (year : Int) (month : Nat) :
    daysBeforeMonth (year + 400) month = daysBeforeMonth year month := by
  fun_induction daysBeforeMonth year month with
  | case1 => rfl
  | case2 => rfl
  | case3 month ih => rw [daysBeforeMonth, ih, daysInMonth_add_four_hundred]

/-- Every 400 years hold 146097 days. -/
theorem dayNumber_add_four_hundred_years (year : Int) (month day : Nat) :
    dayNumber (year + 400) month day = dayNumber year month day + 146097 := by
  unfold dayNumber
  rw [daysBeforeMonth_add_four_hundred]
  unfold daysBeforeYear
  omega

/-- A cycle of 400 years is a whole number of weeks. -/
theorem weekday_add_four_hundred_years (year : Int) (month day : Nat) :
    weekdayOfNumber (dayNumber (year + 400) month day) =
      weekdayOfNumber (dayNumber year month day) := by
  rw [dayNumber_add_four_hundred_years]
  unfold weekdayOfNumber
  congr 1
  omega

end Recurrence.Calendar
