import Recurrence.Proofs.Paging
import Recurrence.Proofs.WeekdayCycle

/-!
Whether an expression ever matches can be told from its fields alone.

Two things are asked for: that no field selects nothing, and that some selected day occurs in
some selected month in the years in which the month is longest (`Matcher.SelectsDate`).
Where both hold there is a match in every stretch of 400 whole years, whatever weekdays are
selected (`Matcher.Satisfiable.exists_admits`), and where one of them fails there is none at
all. A search for the first match after a date-time decides this, as long as 400 years of the
calendar are left (`Expression.nextAfter_eq_none_iff`).
-/

set_option autoImplicit false
set_option relaxedAutoImplicit false

namespace Recurrence

open Recurrence.Calendar Recurrence.Occurrences

namespace Occurrences

/-- A set that is not empty has a member. -/
theorem ValueSet.exists_contains {set : ValueSet} (h : set.isEmpty = false) :
    ∃ value, set.contains value = true := by
  by_contra hnone
  have hempty : set.isEmpty = true := by
    rw [ValueSet.isEmpty_iff]
    intro value
    exact Bool.eq_false_of_not_eq_true fun hvalue ↦ hnone ⟨value, hvalue⟩
  rw [hempty] at h
  cases h

namespace Matcher

variable {matcher : Matcher}

/-- Some selected day occurs in some selected month, in the years in which the month is
longest at least. -/
def SelectsDate (matcher : Matcher) : Prop :=
  ∃ month day, matcher.months.contains month = true ∧ matcher.days.contains day = true ∧
    day ≤ longestMonth month

/-- Some field selects nothing exactly where one of the five sets is empty. -/
theorem hasEmptyField_iff :
    matcher.hasEmptyField = true ↔ ∃ field, (matcher.get field).isEmpty = true := by
  simp only [hasEmptyField, Bool.or_eq_true]
  constructor
  · intro h
    rcases h with (((h | h) | h) | h) | h
    · exact ⟨.minute, h⟩
    · exact ⟨.hour, h⟩
    · exact ⟨.dayOfMonth, h⟩
    · exact ⟨.month, h⟩
    · exact ⟨.dayOfWeek, h⟩
  · intro h
    obtain ⟨field, hfield⟩ := h
    cases field <;> simp_all [get]

/-- No field selects nothing exactly where none of the five sets is empty. -/
theorem hasEmptyField_eq_false_iff :
    matcher.hasEmptyField = false ↔ ∀ field, (matcher.get field).isEmpty = false := by
  rw [← Bool.not_eq_true, hasEmptyField_iff]
  simp

/-- Where no field selects nothing, every field selects a value. -/
theorem exists_contains_get (h : matcher.hasEmptyField = false) (field : Field) :
    ∃ value, (matcher.get field).contains value = true := by
  apply ValueSet.exists_contains
  exact hasEmptyField_eq_false_iff.mp h field

/-- Every field selects something, and some date is selected. -/
structure Satisfiable (matcher : Matcher) : Prop where
  fields : matcher.hasEmptyField = false
  date : matcher.SelectsDate

theorem not_satisfiable_iff :
    ¬ matcher.Satisfiable ↔
      (∃ field, (matcher.get field).isEmpty = true) ∨ ¬ matcher.SelectsDate := by
  rw [← hasEmptyField_iff, ← Bool.not_eq_false, ← not_and_or]
  exact not_congr ⟨fun h ↦ ⟨h.fields, h.date⟩, fun h ↦ ⟨h.1, h.2⟩⟩

/-- A match has a value selected in every field, and its date is a selected date. -/
theorem satisfiable_of_admits {moment : CalendarMinute} (h : matcher.admits moment = true) :
    matcher.Satisfiable where
  fields := by
    apply Bool.eq_false_of_not_eq_true
    intro hempty
    rw [admits_eq_false_of_hasEmptyField hempty] at h
    cases h
  date := by
    obtain ⟨hmonth, hday, -⟩ := admits_iff.mp h
    exact ⟨moment.date.month, moment.date.day, hmonth, hday,
      moment.date.day_bounds.2.trans (daysInMonth_le_longestMonth _ _)⟩

/-- What can match at all has a match in every 400 years, whatever the selected weekdays
are. -/
theorem Satisfiable.exists_admits (h : matcher.Satisfiable) (hdomains : matcher.WithinDomains)
    {year : Int} (hyear : -9999 ≤ year ∧ year ≤ 9599) :
    ∃ moment, matcher.admits moment = true ∧ year < moment.date.year ∧
      moment.date.year ≤ year + 400 := by
  obtain ⟨month, day, hmonth, hday, hlength⟩ := h.date
  obtain ⟨minute, hminute⟩ := exists_contains_get h.fields .minute
  obtain ⟨hour, hhour⟩ := exists_contains_get h.fields .hour
  obtain ⟨weekday, hweekday⟩ := exists_contains_get h.fields .dayOfWeek
  have hminute_lt : minute < 60 := Nat.lt_succ_of_le (hdomains .minute minute hminute).2
  have hhour_lt : hour < 24 := Nat.lt_succ_of_le (hdomains .hour hour hhour).2
  have hweekday_lt : weekday < 7 := Nat.lt_succ_of_le (hdomains .dayOfWeek weekday hweekday).2
  have hday_pos : 1 ≤ day := (hdomains .dayOfMonth day hday).1
  obtain ⟨date, hafter, hbefore, rfl, rfl, rfl⟩ :=
    Date.exists_weekday hyear (hdomains .month month hmonth) ⟨hday_pos, hlength⟩ hweekday_lt
  refine ⟨⟨date, hour, minute, hhour_lt, hminute_lt⟩, ?_, hafter, hbefore⟩
  rw [admits_iff]
  exact ⟨hmonth, hday, hweekday, hhour, hminute⟩

end Matcher

end Occurrences

namespace Expression

/-- While 400 years of the calendar are left, what can match at all matches within 400
years. -/
theorem exists_laterMatches {expression : Expression} {moment : DateTime}
    (h : (Matcher.ofExpression expression).Satisfiable) (hyear : moment.date.year ≤ 9599) :
    ∃ later ∈ expression.laterMatches moment, later.date.year ≤ moment.date.year + 400 := by
  obtain ⟨later, hadmits, hafter, hbefore⟩ := h.exists_admits
    (Matcher.withinDomains_ofExpression expression) ⟨moment.date.year_bounds.1, hyear⟩
  refine ⟨later, ?_, hbefore⟩
  rw [mem_laterMatches, DateTime.lt_start_iff]
  exact ⟨Matcher.lt_of_year_lt hafter, hadmits⟩

/-- While 400 years of the calendar are left, a search for the first match after a date-time
finds none exactly where some field selects nothing or no date is selected. Where it finds
one, that is a later match, at most 400 years ahead. -/
theorem nextAfter_eq_none_iff (expression : Expression) (moment : DateTime)
    (h : moment.date.year ≤ 9599) :
    ((expression.nextAfter moment).result = none ↔
      (∃ field, ((Matcher.ofExpression expression).get field).isEmpty = true) ∨
        ¬ (Matcher.ofExpression expression).SelectsDate) ∧
    ∀ found, (expression.nextAfter moment).result = some found →
      moment < found.start ∧ expression.matchesAt found.start = true ∧
        found.date.year ≤ moment.date.year + 400 := by
  have hspec := isLeastOrNone_nextAfter expression moment
  rw [hspec.eq_none_iff, ← Matcher.not_satisfiable_iff]
  refine ⟨⟨fun hnone hsatisfiable ↦ ?_, fun hfails ↦ ?_⟩, fun found hfound ↦ ?_⟩
  · obtain ⟨later, hlater, -⟩ := exists_laterMatches hsatisfiable h
    rw [← Finset.mem_coe, hnone] at hlater
    exact hlater
  · rw [Set.eq_empty_iff_forall_notMem]
    intro later hlater
    exact hfails (Matcher.satisfiable_of_admits ((mem_laterMatches expression moment).mp hlater).2)
  · obtain ⟨hmem, hleast⟩ := hspec.eq_some_iff.mp hfound
    obtain ⟨hafter, hmatches⟩ := (mem_laterMatches expression moment).mp hmem
    obtain ⟨later, hlater, hyear⟩ :=
      exists_laterMatches (Matcher.satisfiable_of_admits hmatches) h
    have hle : found.date.year ≤ later.date.year := Cursor.year_le_of_le
      (Cursor.ofMinute_le_ofMinute_iff.mpr (hleast hlater))
    exact ⟨hafter, hmatches, hle.trans hyear⟩

/-- Midnight of every Monday that is a 29th of February. -/
def leapMondays : Expression :=
  ⟨.number 0, .number 0, .number 29, .number 2, .number 1⟩

/-- The last instant of the last year that has 400 years after it. -/
def endOf9599 : DateTime :=
  { CalendarMinute.last with
    date := ⟨9599, 12, 31, by decide, CalendarMinute.last.date.month_bounds, by decide⟩
    second := 59
    nanosecond := 999999999
    second_lt := CalendarMinute.last.minute_lt
    nanosecond_lt := by decide }

/-- The rarest of dates comes once more before the calendar ends. -/
theorem exists_nextAfter_leapMondays :
    endOf9599.date.year ≤ 9599 ∧ ∃ found,
      (leapMondays.nextAfter endOf9599).result = some found ∧ found.date.year ≤ 9999 := by
  have hyear : endOf9599.date.year ≤ 9599 := by decide
  obtain ⟨hnone, hfound⟩ := nextAfter_eq_none_iff leapMondays endOf9599 hyear
  have hfields : ∀ field, ((Matcher.ofExpression leapMondays).get field).isEmpty = false := by
    intro field
    cases field <;> decide
  have hdate : (Matcher.ofExpression leapMondays).SelectsDate :=
    ⟨2, 29, by decide, by decide, by decide⟩
  refine ⟨hyear, ?_⟩
  cases hresult : (leapMondays.nextAfter endOf9599).result with
  | none =>
    rcases hnone.mp hresult with ⟨field, hempty⟩ | hnot
    · rw [hfields] at hempty
      cases hempty
    · exact absurd hdate hnot
  | some found => exact ⟨found, rfl, (hfound found hresult).2.2⟩

end Expression

end Recurrence
