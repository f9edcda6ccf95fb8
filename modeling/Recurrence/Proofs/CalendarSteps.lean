import Recurrence.Proofs.CalendarOrder

/-!
Steps of days, months and years from a minute on, at the same time of day.

So many days later is so many times the day after, and as many times 1440 minutes
(`CalendarMinute.daysLater?_eq_some_iff`). Months are counted without a gap across years, and of
two months in a row one has 31 days (`exists_month_of_31_days`), so a day of a month comes back
after two months at the latest. A date that is no leap day exists in every year
(`le_daysInMonth_of_not_leapDay`), and leap years are eight years apart at most
(`exists_isLeapYear_le_add_eight`).
-/

set_option autoImplicit false
set_option relaxedAutoImplicit false

namespace Recurrence.Calendar

namespace CalendarMinute

/-! ### Days -/

/-- The same time of day on the day after, if the calendar has one. -/
def nextDay? (moment : CalendarMinute) : Option CalendarMinute :=
  moment.date.next?.map fun date ↦ { moment with date }

/-- The same time of day so many days later, if the calendar reaches that far. -/
def daysLater? (moment : CalendarMinute) : Nat → Option CalendarMinute
  | 0 => some moment
  | days + 1 => (moment.daysLater? days).bind nextDay?

/-- A day has 1440 minutes, and less than that is left only on the last day of the calendar. -/
theorem nextDay?_cases (moment : CalendarMinute) :
    (∃ next, moment.nextDay? = some next ∧ next.number = moment.number + 1440) ∨
      moment.nextDay? = none ∧ last.number < moment.number + 1440 := by
  unfold nextDay?
  rcases moment.date.next?_cases with ⟨date, hdate, hnumber⟩ | ⟨hnone, hyear, hmonth, hday⟩
  · refine Or.inl ⟨{ moment with date }, by rw [hdate, Option.map_some], ?_⟩
    simp only [number, hnumber]
    omega
  · refine Or.inr ⟨by rw [hnone, Option.map_none], ?_⟩
    have hlast : moment.date = last.date := Date.eq_of_parts hyear hmonth hday
    simp only [number, hlast]
    simp only [last]
    omega

/-- So many days later is so many times 1440 minutes later, or behind the calendar. -/
theorem daysLater?_cases (moment : CalendarMinute) (days : Nat) :
    (∃ later, moment.daysLater? days = some later ∧
      later.number = moment.number + 1440 * days) ∨
      moment.daysLater? days = none ∧ last.number < moment.number + 1440 * days := by
  induction days with
  | zero => exact Or.inl ⟨moment, rfl, by omega⟩
  | succ days ih =>
    rw [daysLater?]
    rcases ih with ⟨later, hlater, hnumber⟩ | ⟨hnone, hlast⟩
    · rw [hlater, Option.bind_some]
      rcases later.nextDay?_cases with ⟨next, hnext, hstep⟩ | ⟨hnone, hlast⟩
      · exact Or.inl ⟨next, hnext, by omega⟩
      · exact Or.inr ⟨hnone, by omega⟩
    · exact Or.inr ⟨by rw [hnone, Option.bind_none], by omega⟩

theorem daysLater?_eq_some_iff {moment later : CalendarMinute} {days : Nat} :
    moment.daysLater? days = some later ↔ later.number = moment.number + 1440 * days := by
  rcases moment.daysLater?_cases days with ⟨found, hfound, hnumber⟩ | ⟨hnone, hlast⟩
  · rw [hfound, Option.some_inj, ← hnumber, number_injective.eq_iff, eq_comm]
  · have hle := le_last later
    rw [le_def] at hle
    rw [hnone]
    simp only [reduceCtorEq, false_iff]
    omega

theorem daysLater?_eq_none_iff {moment : CalendarMinute} {days : Nat} :
    moment.daysLater? days = none ↔ last.number < moment.number + 1440 * days := by
  rcases moment.daysLater?_cases days with ⟨found, hfound, hnumber⟩ | ⟨hnone, hlast⟩
  · have hle := le_last found
    rw [le_def] at hle
    rw [hfound]
    simp only [reduceCtorEq, false_iff]
    omega
  · exact iff_of_true hnone hlast

end CalendarMinute

/-! ### Months -/

/-- Months counted without a gap across years. -/
def monthNumber (year : Int) (month : Nat) : Int :=
  12 * year + month

/-- Every number is that of a month. -/
theorem exists_monthNumber (number : Int) :
    ∃ year month, (1 ≤ month ∧ month ≤ 12) ∧ monthNumber year month = number := by
  refine ⟨(number - 1) / 12, ((number - 1) % 12 + 1).toNat, ?_⟩
  unfold monthNumber
  omega

/-- Of two months in a row one has 31 days. -/
theorem exists_month_of_31_days (number : Int) :
    ∃ year month, (1 ≤ month ∧ month ≤ 12) ∧ number < monthNumber year month ∧
      monthNumber year month ≤ number + 2 ∧ daysInMonth year month = 31 := by
  obtain ⟨year, month, hmonth, hnumber⟩ := exists_monthNumber (number + 1)
  obtain ⟨nextYear, next, hnext, hnextNumber⟩ := exists_monthNumber (number + 2)
  by_cases hshort : month = 2 ∨ month = 4 ∨ month = 6 ∨ month = 9 ∨ month = 11
  · refine ⟨nextYear, next, hnext, by omega, by omega, ?_⟩
    have hlong : next = 3 ∨ next = 5 ∨ next = 7 ∨ next = 10 ∨ next = 12 := by
      unfold monthNumber at hnumber hnextNumber
      omega
    rcases hlong with rfl | rfl | rfl | rfl | rfl <;> rfl
  · refine ⟨year, month, hmonth, by omega, by omega, ?_⟩
    rw [daysInMonth, if_neg (by omega), if_neg (by omega)]

/-! ### Years -/

/-- A date that is no leap day exists in every year if it exists in one. -/
theorem le_daysInMonth_of_not_leapDay {year : Int} {month day : Nat}
    (h : day ≤ daysInMonth year month) (hleap : ¬ (month = 2 ∧ day = 29)) (other : Int) :
    day ≤ daysInMonth other month := by
  unfold daysInMonth at h ⊢
  split_ifs at h ⊢ <;> omega

/-- The leap day exists in leap years. -/
theorem leapDay_le_daysInMonth_iff {year : Int} : 29 ≤ daysInMonth year 2 ↔ IsLeapYear year := by
  unfold daysInMonth
  split_ifs <;> simp_all

/-- A leap year is followed by another one within eight years. -/
theorem exists_isLeapYear_le_add_eight {year : Int} (h : IsLeapYear year) :
    ∃ later, year < later ∧ later ≤ year + 8 ∧ IsLeapYear later := by
  by_cases hnext : IsLeapYear (year + 4)
  · exact ⟨year + 4, by omega, by omega, hnext⟩
  · refine ⟨year + 8, by omega, by omega, ?_⟩
    unfold IsLeapYear at h hnext ⊢
    omega

/-! ### The same time of day -/

namespace CalendarMinute

/-- A minute is found from its parts, and only from these. -/
theorem ofParts?_eq_some_iff {year : Int} {month day hour minute : Nat}
    {moment : CalendarMinute} :
    ofParts? year month day hour minute = some moment ↔
      moment.date.year = year ∧ moment.date.month = month ∧ moment.date.day = day ∧
        moment.hour = hour ∧ moment.minute = minute := by
  unfold ofParts?
  constructor
  · intro h
    obtain ⟨date, hdate, hmoment⟩ := Option.bind_eq_some_iff.mp h
    obtain ⟨hyear, hmonth, hday⟩ := Date.ofParts?_eq_some hdate
    split_ifs at hmoment with htime
    cases hmoment
    exact ⟨hyear, hmonth, hday, rfl, rfl⟩
  · rintro ⟨rfl, rfl, rfl, rfl, rfl⟩
    rw [Date.ofParts?_self, Option.bind_some, dif_pos ⟨moment.hour_lt, moment.minute_lt⟩]

/-- The number of the month that a minute lies in. -/
def monthNumber (moment : CalendarMinute) : Int :=
  Calendar.monthNumber moment.date.year moment.date.month

/-- The last month of the calendar is December of the year 9999. -/
theorem monthNumber_le (moment : CalendarMinute) :
    moment.monthNumber ≤ Calendar.monthNumber 9999 12 := by
  have hyears := moment.date.year_bounds
  have hmonths := moment.date.month_bounds
  unfold monthNumber Calendar.monthNumber
  omega

variable {earlier later : CalendarMinute}

/-- At the same time of the same day of a month, minutes are ordered by month. -/
theorem le_iff_monthNumber_le (hday : later.date.day = earlier.date.day)
    (hhour : later.hour = earlier.hour) (hminute : later.minute = earlier.minute) :
    earlier ≤ later ↔ earlier.monthNumber ≤ later.monthNumber := by
  have hearlier := earlier.date.month_bounds
  have hlater := later.date.month_bounds
  rw [← not_lt, lt_def, number_lt_number_iff]
  simp only [Date.Precedes, monthNumber, Calendar.monthNumber]
  omega

/-- At the same time of the same day of the year, minutes are ordered by year. -/
theorem le_iff_year_le (hmonth : later.date.month = earlier.date.month)
    (hday : later.date.day = earlier.date.day) (hhour : later.hour = earlier.hour)
    (hminute : later.minute = earlier.minute) :
    earlier ≤ later ↔ earlier.date.year ≤ later.date.year := by
  rw [← not_lt, lt_def, number_lt_number_iff]
  simp only [Date.Precedes]
  omega

end CalendarMinute

end Recurrence.Calendar
