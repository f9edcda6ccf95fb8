import Recurrence.Proofs.CounterBounds

/-!
The first selected day of a month is the least day from a start on that the month has, that is
selected, and that falls on a selected weekday.

A search counts weekdays on from the first of the month. The first of a month and a day of it
are dates of the calendar, so what is counted is the weekday of the date
(`Matcher.selectsDay_iff`), and trying the selected days one after another ends at the least of
them (`Matcher.firstDay?_isLeastOrNone`). From a start of 1 on, all sums on the way are bytes,
whatever numbers the sets hold.
-/

set_option autoImplicit false
set_option relaxedAutoImplicit false

namespace Recurrence.Occurrences.Matcher

open Recurrence.Calendar

variable {matcher : Matcher} {first : Date} {start day : Nat}

/-- The days of a month from a start on that are selected and fall on a selected weekday. -/
def selectedDays (matcher : Matcher) (first : Date) (start : Nat) : Set Nat :=
  {day | start ≤ day ∧ day ≤ first.monthLength ∧ matcher.days.contains day = true ∧
    ∃ date, Date.ofParts? first.year first.month day = some date ∧
      matcher.weekdays.contains date.weekday = true}

/-- A day is selected by the weekday that is counted on from the first of its month exactly when
it is selected by the weekday of its date. -/
theorem selectsDay_iff (hfirst : first.day = 1) (hday : 1 ≤ day) :
    matcher.SelectsDay first day ↔
      day ≤ first.monthLength ∧ matcher.days.contains day = true ∧
        ∃ date, Date.ofParts? first.year first.month day = some date ∧
          matcher.weekdays.contains date.weekday = true := by
  have hweekday {date : Date} (hdate : Date.ofParts? first.year first.month day = some date) :
      date.weekday = (first.weekday + day - 1) % 7 := by
    obtain ⟨hyear, hmonth, hsame⟩ := Date.ofParts?_eq_some hdate
    rw [Date.weekday_of_first hfirst hyear hmonth, hsame]
  constructor
  · intro h
    obtain ⟨hlength, hselected, hcounted⟩ := h
    have hdate := Date.ofParts?_of_bounds first.year_bounds first.month_bounds ⟨hday, hlength⟩
    refine ⟨hlength, hselected, _, hdate, ?_⟩
    rw [hweekday hdate]
    exact hcounted
  · intro h
    obtain ⟨hlength, hselected, date, hdate, hcontains⟩ := h
    rw [hweekday hdate] at hcontains
    exact ⟨hlength, hselected, hcontains⟩

/-- The selected days of a month from its first day on, in the way in which a search looks for
them. -/
theorem mem_selectedDays_iff (hfirst : first.day = 1) (hstart : 1 ≤ start) :
    day ∈ matcher.selectedDays first start ↔ start ≤ day ∧ matcher.SelectsDay first day :=
  and_congr_right fun hle ↦ (selectsDay_iff hfirst (hstart.trans hle)).symm

/-- The first selected day of a month from a day on is the least of the selected days. -/
theorem firstDay?_isLeastOrNone (hfirst : first.day = 1) (hstart : 1 ≤ start) :
    IsLeastOrNone (matcher.selectedDays first start) (matcher.firstDay? first start) := by
  have hmem (day : Nat) : day ∈ matcher.selectedDays first start ↔
      start ≤ day ∧ matcher.SelectsDay first day := mem_selectedDays_iff hfirst hstart
  cases h : matcher.firstDay? first start with
  | none =>
    change matcher.selectedDays first start = ∅
    rw [Set.eq_empty_iff_forall_notMem]
    intro day hday
    obtain ⟨hle, hselected⟩ := (hmem day).mp hday
    exact Nat.not_lt.mpr hle (firstDay?_eq_none h hselected)
  | some found =>
    obtain ⟨hselected, hleast⟩ := firstDay?_spec h
    refine ⟨(hmem found).mpr ⟨(firstDay?_bounds h).1, hselected⟩, fun other hother ↦ ?_⟩
    exact hleast other ((hmem other).mp hother).1 ((hmem other).mp hother).2

/-- From the first day of a month on, a day is found exactly where it is the least selected day,
and none exactly where there is none. The weekday that is counted on from the first of the month
is the weekday of the date, and no sum on the way leaves a byte. -/
theorem firstDay?_isLeast (matcher : Matcher) (hfirst : first.day = 1) (hstart : 1 ≤ start) :
    (∀ day, matcher.firstDay? first start = some day ↔
      IsLeast (matcher.selectedDays first start) day) ∧
    (matcher.firstDay? first start = none ↔ matcher.selectedDays first start = ∅) ∧
    (∀ date : Date, date.year = first.year → date.month = first.month →
      (first.weekday + date.day - 1) % 7 = date.weekday) ∧
    matcher.guardedFirstDay first start = .ok (matcher.firstDay? first start) := by
  have hleast : IsLeastOrNone (matcher.selectedDays first start)
      (matcher.firstDay? first start) := firstDay?_isLeastOrNone hfirst hstart
  exact ⟨fun _ ↦ hleast.eq_some_iff, hleast.eq_none_iff,
    fun _ hyear hmonth ↦ (Date.weekday_of_first hfirst hyear hmonth).symm,
    guardedFirstDay_eq_ok fun _ hle _ ↦ hstart.trans hle⟩

/-- The first of February 2024, a month of 29 days. -/
def leapFebruary : Date where
  year := 2024
  month := 2
  day := 1
  year_bounds := by decide
  month_bounds := by decide
  day_bounds := by decide

/-- Thursdays among some days, two of which no month has. -/
def someThursdays : Matcher where
  minutes := .empty
  hours := .empty
  days := .ofList [0, 7, 29, 40]
  months := .empty
  weekdays := .ofList [4]

/-- The seventh of February 2024 is no Thursday, the 29th is one, and no day comes after it. -/
theorem isLeast_selectedDays_leapFebruary :
    leapFebruary.day = 1 ∧ IsLeast (someThursdays.selectedDays leapFebruary 1) 29 ∧
      someThursdays.selectedDays leapFebruary 30 = ∅ := by
  have hfirst : leapFebruary.day = 1 := rfl
  have hfound : someThursdays.firstDay? leapFebruary 1 = some 29 := by decide +kernel
  have hnone : someThursdays.firstDay? leapFebruary 30 = none := by decide +kernel
  obtain ⟨hleast, -⟩ := firstDay?_isLeast someThursdays hfirst (Nat.le_refl 1)
  obtain ⟨-, hempty, -⟩ := firstDay?_isLeast someThursdays hfirst (Nat.le_add_left 1 29)
  exact ⟨hfirst, (hleast 29).mp hfound, hempty.mp hnone⟩

end Recurrence.Occurrences.Matcher
