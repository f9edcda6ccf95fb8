import Recurrence.Calendar.Date

/-!
Every day that a month has in its longest years falls on every weekday within 400 years.

Leap years have all these days, and their months start alike, so the weekday of a day in a
leap year depends on the start of the year only (`weekdayOfNumber_of_isLeapYear`). Seven
leap years in a row start on seven different weekdays where no century comes between them,
and such a row returns every 400 years (`exists_isLeapYear`). So the dates that have a month,
a day and a weekday in common never fail for as long as 400 years (`Date.exists_weekday`).
-/

set_option autoImplicit false
set_option relaxedAutoImplicit false

namespace Recurrence.Calendar

/-- The length of a month in the years in which it is longest. -/
def longestMonth (month : Nat) : Nat :=
  if month = 2 then 29
  else if month = 4 ∨ month = 6 ∨ month = 9 ∨ month = 11 then 30
  else 31

/-! ### Leap years -/

/-- No month is ever longer. -/
theorem daysInMonth_le_longestMonth (year : Int) (month : Nat) :
    daysInMonth year month ≤ longestMonth month := by
  unfold daysInMonth longestMonth
  repeat' split
  all_goals omega

variable {year later : Int}

/-- In a leap year every month is as long as it can be. -/
theorem daysInMonth_of_isLeapYear (h : IsLeapYear year) (month : Nat) :
    daysInMonth year month = longestMonth month := by
  simp only [daysInMonth, longestMonth, h, ↓reduceIte]

/-- Months start alike in all leap years. -/
theorem daysBeforeMonth_of_isLeapYear (h : IsLeapYear year) (hlater : IsLeapYear later)
    (month : Nat) : daysBeforeMonth year month = daysBeforeMonth later month := by
  fun_induction daysBeforeMonth year month with
  | case1 => rfl
  | case2 => rfl
  | case3 month ih =>
    rw [daysBeforeMonth, ih, daysInMonth_of_isLeapYear h, daysInMonth_of_isLeapYear hlater]

/-- Within 400 years there is a leap year before whose start any given number of days is left
over from whole weeks. -/
theorem exists_isLeapYear (year left : Int) (h : 0 ≤ left ∧ left < 7) :
    ∃ later, year < later ∧ later ≤ year + 400 ∧ IsLeapYear later ∧
      daysBeforeYear later % 7 = left := by
  -- The 4th, 8th, 12th year of a cycle, up to the 28th, each start five weekdays after the one
  -- before, so three steps for each day that is wanted lead to the right one of the seven.
  obtain ⟨place, hplace⟩ : ∃ place, place = (3 * left + 5) % 7 := ⟨_, rfl⟩
  have hbounds : 0 ≤ place ∧ place < 7 := by omega
  have hleft : (5 * place + 3) % 7 = left := by omega
  obtain ⟨cycle, hcycle⟩ : ∃ cycle, cycle = (year - 4 * place - 4) / 400 + 1 := ⟨_, rfl⟩
  refine ⟨400 * cycle + 4 * place + 4, by omega, by omega, ?_, ?_⟩
  · unfold IsLeapYear
    omega
  · calc daysBeforeYear (400 * cycle + 4 * place + 4) % 7
        = (7 * (20871 * cycle + 208 * place + 156) + (5 * place + 3)) % 7 := by
          have hfours : (400 * cycle + 4 * place + 4 - 1) / 4 = 100 * cycle + place := by omega
          have hcenturies : (400 * cycle + 4 * place + 4 - 1) / 100 = 4 * cycle := by omega
          have hcycles : (400 * cycle + 4 * place + 4 - 1) / 400 = cycle := by omega
          rw [daysBeforeYear, hfours, hcenturies, hcycles]
          omega
      _ = (5 * place + 3) % 7 := Int.mul_add_emod_self_left ..
      _ = left := hleft

/-! ### Days on weekdays -/

/-- In leap years the weekday of a day is set by the start of the year. -/
theorem weekdayOfNumber_of_isLeapYear (h : IsLeapYear year) (hlater : IsLeapYear later)
    (month day : Nat) :
    (weekdayOfNumber (dayNumber later month day) : Int) =
      (daysBeforeYear later + (daysBeforeMonth year month + day)) % 7 := by
  unfold weekdayOfNumber dayNumber
  rw [daysBeforeMonth_of_isLeapYear hlater h]
  omega

/-- Within 400 years of the calendar a day that its month has in the longest years falls on a
given weekday. -/
theorem Date.exists_weekday {month day weekday : Nat} (hyear : -9999 ≤ year ∧ year ≤ 9599)
    (hmonth : 1 ≤ month ∧ month ≤ 12) (hday : 1 ≤ day ∧ day ≤ longestMonth month)
    (hweekday : weekday < 7) :
    ∃ date : Date, year < date.year ∧ date.year ≤ year + 400 ∧ date.month = month ∧
      date.day = day ∧ date.weekday = weekday := by
  have hfour : IsLeapYear 4 := by decide
  obtain ⟨later, hafter, hbefore, hleap, hdays⟩ := exists_isLeapYear year
    ((weekday - (daysBeforeMonth 4 month + day)) % 7) (by omega)
  refine ⟨⟨later, month, day, by omega, hmonth, ?_⟩, hafter, hbefore, rfl, rfl, ?_⟩
  · rw [daysInMonth_of_isLeapYear hleap]
    exact hday
  · have hsame := weekdayOfNumber_of_isLeapYear hfour hleap month day
    rw [Date.weekday, Date.number]
    dsimp only
    omega

end Recurrence.Calendar
