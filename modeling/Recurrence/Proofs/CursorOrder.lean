import Mathlib.Data.Prod.Lex
import Recurrence.Occurrences.Search
import Recurrence.Proofs.CalendarOrder

/-!
The cursors of a search are ordered by year, month, day, hour and minute, and so are the
minutes that they stand for (`Cursor.ofMinute_le_ofMinute_iff`). A part that is one past
its greatest value needs no care here: such a cursor stands behind the whole of the unit
that it has used up and in front of the next one.

Every jump, reset and carry of a search goes forward and passes over no match
(`Matcher.Advances`). The jumps to a value of a field rest on the least selected value
from a part on, the jump to a day on the least selected day of a month
(`Matcher.firstDay?_spec`, `Matcher.firstDay?_eq_none`), whose weekday is counted on from
the weekday of the first of the month (`Date.weekday_of_first`).
-/

set_option autoImplicit false
set_option relaxedAutoImplicit false

namespace Recurrence

/-! ### Weekdays within a month -/

namespace Calendar

/-- The weekday of a day of a month, counted on from the first of the month. -/
theorem Date.weekday_of_first {first date : Date} (hfirst : first.day = 1)
    (hyear : date.year = first.year) (hmonth : date.month = first.month) :
    date.weekday = (first.weekday + date.day - 1) % 7 := by
  have hpos := date.day_bounds.1
  rw [Date.weekday, Date.weekday, Date.number, Date.number, hyear, hmonth, hfirst]
  unfold weekdayOfNumber dayNumber
  omega

end Calendar

namespace Occurrences

open Recurrence.Calendar

/-! ### Cursors in order -/

namespace Cursor

variable {first second : Cursor}

/-- The parts of a cursor from coarse to fine, ordered like words. -/
def parts (cursor : Cursor) : Int ×ₗ Nat ×ₗ Nat ×ₗ Nat ×ₗ Nat :=
  toLex (cursor.year, toLex (cursor.month, toLex (cursor.day, toLex (cursor.hour, cursor.minute))))

theorem parts_injective : Function.Injective parts := by
  intro first second h
  cases first
  cases second
  simpa [parts] using h

/-- Cursors are ordered by year, then month, day, hour and minute. -/
instance : LinearOrder Cursor :=
  LinearOrder.lift' parts parts_injective

theorem lt_iff :
    first < second ↔ first.year < second.year ∨ first.year = second.year ∧
      (first.month < second.month ∨ first.month = second.month ∧
        (first.day < second.day ∨ first.day = second.day ∧
          (first.hour < second.hour ∨ first.hour = second.hour ∧
            first.minute < second.minute))) := by
  change first.parts < second.parts ↔ _
  simp only [parts, Prod.Lex.toLex_lt_toLex]

theorem le_iff :
    first ≤ second ↔ first.year < second.year ∨ first.year = second.year ∧
      (first.month < second.month ∨ first.month = second.month ∧
        (first.day < second.day ∨ first.day = second.day ∧
          (first.hour < second.hour ∨ first.hour = second.hour ∧
            first.minute ≤ second.minute))) := by
  change first.parts ≤ second.parts ↔ _
  simp only [parts, Prod.Lex.toLex_le_toLex]

/-- Going forward never goes back in years. -/
theorem year_le_of_le (h : first ≤ second) : first.year ≤ second.year := by
  rw [le_iff] at h
  omega

/-- Minutes are ordered like the cursors at them. -/
theorem ofMinute_lt_ofMinute_iff {earlier later : CalendarMinute} :
    ofMinute earlier < ofMinute later ↔ earlier < later := by
  rw [lt_iff, CalendarMinute.lt_def, CalendarMinute.number_lt_number_iff]
  have hdate : earlier.date = later.date ↔ earlier.date.year = later.date.year ∧
      earlier.date.month = later.date.month ∧ earlier.date.day = later.date.day := by
    constructor
    · intro h
      rw [h]
      exact ⟨rfl, rfl, rfl⟩
    · intro hparts
      obtain ⟨hyear, hmonth, hday⟩ := hparts
      exact Date.eq_of_parts hyear hmonth hday
  rw [hdate]
  simp only [ofMinute, Date.Precedes]
  omega

theorem ofMinute_le_ofMinute_iff {earlier later : CalendarMinute} :
    ofMinute earlier ≤ ofMinute later ↔ earlier ≤ later := by
  rw [← not_lt, ofMinute_lt_ofMinute_iff, not_lt]

end Cursor

namespace Matcher

variable {matcher : Matcher} {cursor next last : Cursor}

/-- A minute matches when each of its parts is selected. -/
theorem admits_iff {moment : CalendarMinute} :
    matcher.admits moment = true ↔
      matcher.months.contains moment.date.month = true ∧
        matcher.days.contains moment.date.day = true ∧
          matcher.weekdays.contains moment.date.weekday = true ∧
            matcher.hours.contains moment.hour = true ∧
              matcher.minutes.contains moment.minute = true := by
  simp only [admits, Bool.and_eq_true, and_assoc]

/-! ### The first selected day of a month -/

/-- A day of a month is selected, and so is its weekday, counted on from the first of the
month. -/
def SelectsDay (matcher : Matcher) (first : Date) (day : Nat) : Prop :=
  day ≤ first.monthLength ∧ matcher.days.contains day = true ∧
    matcher.weekdays.contains ((first.weekday + day - 1) % 7) = true

/-- What is found is selected, and no selected day lies before it. -/
theorem firstDay?_spec {first : Date} {start day : Nat}
    (h : matcher.firstDay? first start = some day) :
    matcher.SelectsDay first day ∧
      ∀ other, start ≤ other → matcher.SelectsDay first other → day ≤ other := by
  fun_induction firstDay? matcher first start with
  | case1 => cases h
  | case2 => cases h
  | case3 start found hfound hle hweekday =>
    cases h
    have hspec := ValueSet.nextFrom?_spec hfound
    refine ⟨⟨Nat.le_of_not_lt hle, hspec.2.1, hweekday⟩, fun other hother hselected ↦ ?_⟩
    exact ValueSet.le_of_nextFrom? hfound hselected.2.1 hother
  | case4 start found hfound _ hweekday ih =>
    refine ⟨(ih h).1, fun other hother hselected ↦ ?_⟩
    have hle := ValueSet.le_of_nextFrom? hfound hselected.2.1 hother
    have hne : found ≠ other := by
      rintro rfl
      exact hweekday hselected.2.2
    exact (ih h).2 other (by omega) hselected

/-- Where no day is found, none from the start on is selected. -/
theorem firstDay?_eq_none {first : Date} {start other : Nat}
    (h : matcher.firstDay? first start = none) (hselected : matcher.SelectsDay first other) :
    other < start := by
  fun_induction firstDay? matcher first start with
  | case1 start hnone => exact ValueSet.lt_of_nextFrom?_eq_none hnone hselected.2.1
  | case2 start found hfound hpast =>
    by_contra hle
    have hfound_le := ValueSet.le_of_nextFrom? hfound hselected.2.1 (Nat.le_of_not_lt hle)
    have hlength := hselected.1
    omega
  | case3 => cases h
  | case4 start found hfound _ hweekday ih =>
    by_contra hle
    have hfound_le := ValueSet.le_of_nextFrom? hfound hselected.2.1 (Nat.le_of_not_lt hle)
    have hne : found ≠ other := by
      rintro rfl
      exact hweekday hselected.2.2
    have hlater := ih h
    omega

/-- The date of a match is selected in its month. -/
theorem selectsDay_of_admits {first : Date} {moment : CalendarMinute}
    (h : matcher.admits moment = true) (hfirst : first.day = 1)
    (hyear : moment.date.year = first.year) (hmonth : moment.date.month = first.month) :
    matcher.SelectsDay first moment.date.day := by
  obtain ⟨-, hday, hweekday, -, -⟩ := admits_iff.mp h
  have hlength := moment.date.day_bounds.2
  rw [hyear, hmonth] at hlength
  rw [Date.weekday_of_first hfirst hyear hmonth] at hweekday
  exact ⟨hlength, hday, hweekday⟩

/-! ### Moving on without passing over a match -/

/-- A cursor goes forward to another, and every match that it stood in front of is still
to come. -/
structure Advances (matcher : Matcher) (cursor next : Cursor) : Prop where
  le : cursor ≤ next
  keeps : ∀ moment, matcher.admits moment = true → cursor ≤ Cursor.ofMinute moment →
    next ≤ Cursor.ofMinute moment

theorem Advances.trans (hfirst : matcher.Advances cursor next)
    (hsecond : matcher.Advances next last) : matcher.Advances cursor last where
  le := le_trans hfirst.le hsecond.le
  keeps moment hadmits hle := hsecond.keeps moment hadmits (hfirst.keeps moment hadmits hle)

/-- No match is left in a year after the last selected month. -/
theorem advances_nextYear (h : matcher.months.nextFrom? cursor.month = none) :
    matcher.Advances cursor cursor.nextYear where
  le := by
    rw [Cursor.le_iff]
    exact Or.inl (Int.lt_succ cursor.year)
  keeps moment hadmits hle := by
    have hmonth := ValueSet.lt_of_nextFrom?_eq_none h (admits_iff.mp hadmits).1
    have hmonths := moment.date.month_bounds
    have hdays := moment.date.day_bounds
    rw [Cursor.le_iff] at hle ⊢
    simp only [Cursor.ofMinute, Cursor.nextYear] at hle ⊢
    omega

/-- The next selected month is no later than the month of any match to come. -/
theorem advances_toMonth {month : Nat}
    (h : matcher.months.nextFrom? cursor.month = some month) :
    matcher.Advances cursor (cursor.toMonth month) := by
  have hbounds := ValueSet.nextFrom?_bounds h
  unfold Cursor.toMonth
  split_ifs with hsame
  · exact ⟨le_refl cursor, fun _ _ hle ↦ hle⟩
  · constructor
    · rw [Cursor.le_iff]
      dsimp only
      omega
    · intro moment hadmits hle
      have hmonth := ValueSet.le_of_nextFrom? h (admits_iff.mp hadmits).1
      have hdays := moment.date.day_bounds
      rw [Cursor.le_iff] at hle ⊢
      simp only [Cursor.ofMinute] at hle ⊢
      omega

/-- No match is left in a month after the last selected day. -/
theorem advances_nextMonth {first : Date}
    (hfirst : Date.ofParts? cursor.year cursor.month 1 = some first)
    (h : matcher.firstDay? first cursor.day = none) :
    matcher.Advances cursor cursor.nextMonth where
  le := by
    rw [Cursor.le_iff]
    exact Or.inr ⟨rfl, Or.inl (Nat.lt_succ_self cursor.month)⟩
  keeps moment hadmits hle := by
    obtain ⟨hyear, hmonth, hone⟩ := Date.ofParts?_eq_some hfirst
    have hday : moment.date.year = cursor.year → moment.date.month = cursor.month →
        moment.date.day < cursor.day := fun hsameYear hsameMonth ↦
      firstDay?_eq_none h (selectsDay_of_admits hadmits hone (hsameYear.trans hyear.symm)
        (hsameMonth.trans hmonth.symm))
    have hdays := moment.date.day_bounds
    rw [Cursor.le_iff] at hle ⊢
    simp only [Cursor.ofMinute, Cursor.nextMonth] at hle ⊢
    omega

/-- The next selected day of a month is no later than the day of any match to come in that
month. -/
theorem advances_toDay {first : Date} {day : Nat}
    (hfirst : Date.ofParts? cursor.year cursor.month 1 = some first)
    (h : matcher.firstDay? first cursor.day = some day) :
    matcher.Advances cursor (cursor.toDay day) := by
  obtain ⟨hyear, hmonth, hone⟩ := Date.ofParts?_eq_some hfirst
  have hbounds := firstDay?_bounds h
  unfold Cursor.toDay
  split_ifs with hsame
  · exact ⟨le_refl cursor, fun _ _ hle ↦ hle⟩
  · constructor
    · rw [Cursor.le_iff]
      dsimp only
      omega
    · intro moment hadmits hle
      have hday : moment.date.year = cursor.year → moment.date.month = cursor.month →
          cursor.day ≤ moment.date.day → day ≤ moment.date.day :=
        fun hsameYear hsameMonth hstart ↦ (firstDay?_spec h).2 moment.date.day hstart
          (selectsDay_of_admits hadmits hone (hsameYear.trans hyear.symm)
            (hsameMonth.trans hmonth.symm))
      rw [Cursor.le_iff] at hle ⊢
      simp only [Cursor.ofMinute] at hle ⊢
      omega

/-- No match is left in a day after the last selected hour. -/
theorem advances_nextDay (h : matcher.hours.nextFrom? cursor.hour = none) :
    matcher.Advances cursor cursor.nextDay where
  le := by
    rw [Cursor.le_iff]
    exact Or.inr ⟨rfl, Or.inr ⟨rfl, Or.inl (Nat.lt_succ_self cursor.day)⟩⟩
  keeps moment hadmits hle := by
    have hhour := ValueSet.lt_of_nextFrom?_eq_none h (admits_iff.mp hadmits).2.2.2.1
    rw [Cursor.le_iff] at hle ⊢
    simp only [Cursor.ofMinute, Cursor.nextDay] at hle ⊢
    omega

/-- The next selected hour of a day is no later than the hour of any match to come on that
day. -/
theorem advances_toHour {hour : Nat} (h : matcher.hours.nextFrom? cursor.hour = some hour) :
    matcher.Advances cursor (cursor.toHour hour) := by
  have hbounds := ValueSet.nextFrom?_bounds h
  unfold Cursor.toHour
  split_ifs with hsame
  · exact ⟨le_refl cursor, fun _ _ hle ↦ hle⟩
  · constructor
    · rw [Cursor.le_iff]
      dsimp only
      omega
    · intro moment hadmits hle
      have hhour := ValueSet.le_of_nextFrom? h (admits_iff.mp hadmits).2.2.2.1
      rw [Cursor.le_iff] at hle ⊢
      simp only [Cursor.ofMinute] at hle ⊢
      omega

/-- No match is left in an hour after the last selected minute. -/
theorem advances_nextHour (h : matcher.minutes.nextFrom? cursor.minute = none) :
    matcher.Advances cursor cursor.nextHour where
  le := by
    rw [Cursor.le_iff]
    exact Or.inr ⟨rfl, Or.inr ⟨rfl, Or.inr ⟨rfl, Or.inl (Nat.lt_succ_self cursor.hour)⟩⟩⟩
  keeps moment hadmits hle := by
    have hminute := ValueSet.lt_of_nextFrom?_eq_none h (admits_iff.mp hadmits).2.2.2.2
    rw [Cursor.le_iff] at hle ⊢
    simp only [Cursor.ofMinute, Cursor.nextHour] at hle ⊢
    omega

/-- The next selected minute of an hour is no later than the minute of any match to come in
that hour. -/
theorem advances_minute {minute : Nat}
    (h : matcher.minutes.nextFrom? cursor.minute = some minute) :
    matcher.Advances cursor { cursor with minute } where
  le := by
    have hbounds := ValueSet.nextFrom?_bounds h
    rw [Cursor.le_iff]
    dsimp only
    omega
  keeps moment hadmits hle := by
    have hminute := ValueSet.le_of_nextFrom? h (admits_iff.mp hadmits).2.2.2.2
    rw [Cursor.le_iff] at hle ⊢
    simp only [Cursor.ofMinute] at hle ⊢
    omega

end Matcher

end Occurrences

end Recurrence
