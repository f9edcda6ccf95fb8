import Mathlib.Data.Int.Interval
import Mathlib.Data.Set.Finite.Lattice
import Recurrence.Calendar.DateTime

/-!
Numbers and parts order the calendar alike. A day has the smaller number exactly when
it comes first by year, then by month, then by day (`Date.number_lt_number_iff`), so
different days and different minutes have different numbers and the minutes of the
calendar form a finite linear order between `first` and `last`.

The minute after a minute has the next number (`CalendarMinute.number_of_next?`), and
only the last minute of the calendar has none (`CalendarMinute.eq_last_of_next?`): no
minute lies between a minute and the one after it (`CalendarMinute.lt_iff_next?_le`).
-/

set_option autoImplicit false
set_option relaxedAutoImplicit false

namespace Recurrence.Calendar

/-! ### Days before a year and a month -/

/-- Later years start later. -/
theorem daysBeforeYear_mono {earlier later : Int} (h : earlier ≤ later) :
    daysBeforeYear earlier ≤ daysBeforeYear later := by
  unfold daysBeforeYear
  omega

/-- Later months start later. -/
theorem daysBeforeMonth_mono (year : Int) {earlier later : Nat} (h : earlier ≤ later) :
    daysBeforeMonth year earlier ≤ daysBeforeMonth year later := by
  refine monotone_nat_of_le_succ (fun month ↦ ?_) h
  cases month with
  | zero => exact Nat.le_refl 0
  | succ month =>
    rw [daysBeforeMonth_succ year (Nat.le_add_left 1 month)]
    exact Nat.le_add_right _ _

/-- A day of a month comes before the first of every later month of the year. -/
theorem daysBeforeMonth_add_le (year : Int) {earlier later day : Nat} (hpos : 1 ≤ earlier)
    (hday : day ≤ daysInMonth year earlier) (h : earlier < later) :
    daysBeforeMonth year earlier + day ≤ daysBeforeMonth year later := by
  have hnext := daysBeforeMonth_succ year hpos
  have hlater : daysBeforeMonth year (earlier + 1) ≤ daysBeforeMonth year later :=
    daysBeforeMonth_mono year h
  omega

/-! ### Dates -/

namespace Date

variable {earlier later : Date}

/-- A date comes first by year, then by month, then by day. -/
def Precedes (earlier later : Date) : Prop :=
  earlier.year < later.year ∨ earlier.year = later.year ∧
    (earlier.month < later.month ∨ earlier.month = later.month ∧ earlier.day < later.day)

/-- Dates with the same parts are the same. -/
theorem eq_of_parts (hyear : earlier.year = later.year) (hmonth : earlier.month = later.month)
    (hday : earlier.day = later.day) : earlier = later := by
  cases earlier
  cases later
  simp_all

/-- Of two dates one comes first, unless they are the same. -/
theorem precedes_trichotomy (earlier later : Date) :
    earlier.Precedes later ∨ earlier = later ∨ later.Precedes earlier := by
  by_cases heq : earlier = later
  · exact Or.inr (Or.inl heq)
  · have hparts : ¬ (earlier.year = later.year ∧ earlier.month = later.month ∧
        earlier.day = later.day) := fun h ↦ heq (eq_of_parts h.1 h.2.1 h.2.2)
    unfold Precedes
    omega

/-- The date that comes first has the smaller number. -/
theorem number_lt_of_precedes (h : earlier.Precedes later) : earlier.number < later.number := by
  have hmonth := earlier.month_bounds
  have hday := earlier.day_bounds
  have hlater := later.day_bounds
  unfold number dayNumber
  rcases h with hyear | ⟨hyear, hmonths | ⟨hmonths, hdays⟩⟩
  · have hend : daysBeforeMonth earlier.year earlier.month + earlier.day ≤
        daysBeforeMonth earlier.year 13 :=
      daysBeforeMonth_add_le earlier.year hmonth.1 hday.2 (Nat.lt_succ_of_le hmonth.2)
    have hstart := daysBeforeYear_mono (Int.add_one_le_of_lt hyear)
    rw [daysBeforeYear_succ] at hstart
    omega
  · have hend := daysBeforeMonth_add_le earlier.year hmonth.1 hday.2 hmonths
    rw [hyear] at hend ⊢
    omega
  · rw [hyear, hmonths]
    omega

/-- Dates and their numbers are ordered alike. -/
theorem number_lt_number_iff : earlier.number < later.number ↔ earlier.Precedes later := by
  constructor
  · intro h
    rcases precedes_trichotomy earlier later with hfirst | rfl | hlast
    · exact hfirst
    · exact absurd h (Int.lt_irrefl _)
    · have hless := number_lt_of_precedes hlast
      omega
  · exact number_lt_of_precedes

/-- Different dates have different numbers. -/
theorem number_injective : Function.Injective number := by
  intro earlier later h
  rcases precedes_trichotomy earlier later with hfirst | heq | hlast
  · have hless := number_lt_of_precedes hfirst
    omega
  · exact heq
  · have hless := number_lt_of_precedes hlast
    omega

/-- Parts within their bounds are the parts of a date. -/
theorem ofParts?_of_bounds {year : Int} {month day : Nat} (hyear : -9999 ≤ year ∧ year ≤ 9999)
    (hmonth : 1 ≤ month ∧ month ≤ 12) (hday : 1 ≤ day ∧ day ≤ daysInMonth year month) :
    ofParts? year month day = some ⟨year, month, day, hyear, hmonth, hday⟩ := by
  simp [ofParts?, hyear, hmonth, hday]

theorem ofParts?_eq_none_iff {year : Int} {month day : Nat} :
    ofParts? year month day = none ↔
      ¬ ((-9999 ≤ year ∧ year ≤ 9999) ∧ (1 ≤ month ∧ month ≤ 12) ∧
        (1 ≤ day ∧ day ≤ daysInMonth year month)) := by
  unfold ofParts?
  split <;> simp_all

/-! ### The day after a day -/

/-- The day after a day has the next number, and only the last day of the calendar has
none after it. -/
theorem next?_cases (date : Date) :
    (∃ next, date.next? = some next ∧ next.number = date.number + 1) ∨
      date.next? = none ∧ date.year = 9999 ∧ date.month = 12 ∧ date.day = 31 := by
  have hyear := date.year_bounds
  have hmonth := date.month_bounds
  have hday := date.day_bounds
  have hmonths := daysBeforeMonth_succ date.year hmonth.1
  by_cases hsame : date.day + 1 ≤ daysInMonth date.year date.month
  · have hnext := ofParts?_of_bounds hyear hmonth ⟨Nat.le_add_left 1 date.day, hsame⟩
    refine Or.inl ⟨_, by rw [next?, hnext]; rfl, ?_⟩
    simp only [number, dayNumber]
    omega
  · have hnoday : ofParts? date.year date.month (date.day + 1) = none := by
      rw [ofParts?_eq_none_iff]
      omega
    by_cases hother : date.month + 1 ≤ 12
    · have hnext := ofParts?_of_bounds hyear ⟨Nat.le_add_left 1 date.month, hother⟩
        ⟨Nat.le_refl 1, daysInMonth_pos date.year (date.month + 1)⟩
      refine Or.inl ⟨_, by rw [next?, hnoday, hnext]; rfl, ?_⟩
      simp only [number, dayNumber]
      omega
    · have hdecember : date.month = 12 := by omega
      have hnomonth : ofParts? date.year (date.month + 1) 1 = none := by
        rw [ofParts?_eq_none_iff]
        omega
      by_cases hnewyear : date.year + 1 ≤ 9999
      · have hnext : ofParts? (date.year + 1) 1 1 = some _ :=
          ofParts?_of_bounds ⟨by omega, hnewyear⟩ ⟨Nat.le_refl 1, by decide⟩
            ⟨Nat.le_refl 1, daysInMonth_pos (date.year + 1) 1⟩
        have hyears := daysBeforeYear_succ date.year
        have hfirst : daysBeforeMonth (date.year + 1) 1 = 0 := rfl
        have hend : daysBeforeMonth date.year 13 =
            daysBeforeMonth date.year 12 + daysInMonth date.year 12 := rfl
        refine Or.inl ⟨_, by rw [next?, hnoday, hnomonth, hnext]; rfl, ?_⟩
        rw [hdecember] at hsame hday
        simp only [number, dayNumber, hdecember]
        omega
      · have hnoyear : ofParts? (date.year + 1) 1 1 = none := by
          rw [ofParts?_eq_none_iff]
          omega
        have hlength : daysInMonth date.year 12 = 31 := rfl
        rw [hdecember, hlength] at hsame hday
        refine Or.inr ⟨by rw [next?, hnoday, hnomonth, hnoyear]; rfl, ?_⟩
        omega

end Date

/-! ### Minutes -/

namespace CalendarMinute

/-- The first minute of the calendar. -/
def first : CalendarMinute :=
  midnight ⟨-9999, 1, 1, by decide, by decide, by decide⟩

/-- Minutes of one date are ordered by hour, then by minute. -/
theorem number_lt_number_iff {earlier later : CalendarMinute} :
    earlier.number < later.number ↔
      earlier.date.Precedes later.date ∨ earlier.date = later.date ∧
        (earlier.hour < later.hour ∨
          earlier.hour = later.hour ∧ earlier.minute < later.minute) := by
  have hhour := earlier.hour_lt
  have hminute := earlier.minute_lt
  have hhour' := later.hour_lt
  have hminute' := later.minute_lt
  rw [← Date.number_lt_number_iff, ← Date.number_injective.eq_iff]
  unfold number
  omega

/-- Different minutes have different numbers. -/
theorem number_injective : Function.Injective number := by
  intro earlier later h
  have hhour := earlier.hour_lt
  have hminute := earlier.minute_lt
  have hhour' := later.hour_lt
  have hminute' := later.minute_lt
  unfold number at h
  have hdate : earlier.date = later.date := Date.number_injective (by omega)
  rw [hdate] at h
  have hhours : earlier.hour = later.hour := by omega
  have hminutes : earlier.minute = later.minute := by omega
  cases earlier
  cases later
  simp_all

/-- Minutes are ordered in time, and any two can be compared. -/
instance : LinearOrder CalendarMinute where
  le_refl _ := Int.le_refl _
  le_trans _ _ _ := Int.le_trans
  le_antisymm _ _ hle hge := number_injective (Int.le_antisymm hle hge)
  le_total _ _ := Int.le_total _ _
  lt_iff_le_not_ge _ _ := Int.lt_iff_le_and_not_ge
  toDecidableLE := inferInstance

/-- No minute comes before the first one. -/
theorem first_le (moment : CalendarMinute) : first ≤ moment := by
  have hyear := moment.date.year_bounds
  have hmonth := moment.date.month_bounds
  have hday := moment.date.day_bounds
  rw [← not_lt, lt_def, number_lt_number_iff]
  simp only [Date.Precedes, first, midnight]
  omega

/-- No minute comes after the last one. -/
theorem le_last (moment : CalendarMinute) : moment ≤ last := by
  have hyear := moment.date.year_bounds
  have hmonth := moment.date.month_bounds
  have hday := moment.date.day_bounds
  have hlength := daysInMonth_le moment.date.year moment.date.month
  have hhour := moment.hour_lt
  have hminute := moment.minute_lt
  rw [← not_lt, lt_def, number_lt_number_iff]
  simp only [Date.Precedes, last]
  omega

/-- The calendar has finitely many minutes. -/
instance : Finite CalendarMinute := by
  have hbounds (moment : CalendarMinute) :
      moment.number ∈ Set.Icc first.number last.number := ⟨first_le moment, le_last moment⟩
  refine Finite.of_injective (fun moment ↦ (⟨moment.number, hbounds moment⟩ : Set.Icc _ _)) ?_
  intro earlier later h
  exact number_injective (congrArg Subtype.val h)

/-! ### The minute after a minute -/

/-- The minute after a minute has the next number, and only the last minute of the
calendar has none after it. -/
theorem next?_cases (moment : CalendarMinute) :
    (∃ next, moment.next? = some next ∧ next.number = moment.number + 1) ∨
      moment.next? = none ∧ moment = last := by
  have hhour := moment.hour_lt
  have hminute := moment.minute_lt
  unfold next?
  split_ifs with hm hh
  · refine Or.inl ⟨_, rfl, ?_⟩
    simp only [number]
    omega
  · refine Or.inl ⟨_, rfl, ?_⟩
    simp only [number]
    omega
  · rcases moment.date.next?_cases with ⟨date, hdate, hnumber⟩ | ⟨hdate, hyear, hmonth, hday⟩
    · refine Or.inl ⟨midnight date, by rw [hdate]; rfl, ?_⟩
      simp only [number, midnight, hnumber]
      omega
    · refine Or.inr ⟨by rw [hdate]; rfl, ?_⟩
      have hlast : moment.date = last.date := Date.eq_of_parts hyear hmonth hday
      apply number_injective
      unfold number
      rw [hlast]
      simp only [last]
      omega

theorem number_of_next? {moment next : CalendarMinute} (h : moment.next? = some next) :
    next.number = moment.number + 1 := by
  rcases moment.next?_cases with ⟨found, hfound, hnumber⟩ | ⟨hnone, -⟩
  · rw [hfound] at h
    cases h
    exact hnumber
  · rw [hnone] at h
    cases h

theorem eq_last_of_next? {moment : CalendarMinute} (h : moment.next? = none) : moment = last := by
  rcases moment.next?_cases with ⟨found, hfound, -⟩ | ⟨-, hlast⟩
  · rw [hfound] at h
    cases h
  · exact hlast

/-- No minute lies between a minute and the one after it. -/
theorem lt_iff_next?_le {moment other : CalendarMinute} :
    moment < other ↔ ∃ next, moment.next? = some next ∧ next ≤ other := by
  constructor
  · intro h
    rcases moment.next?_cases with ⟨next, hnext, hnumber⟩ | ⟨-, hlast⟩
    · refine ⟨next, hnext, ?_⟩
      rw [lt_def] at h
      rw [le_def]
      omega
    · rw [hlast] at h
      exact absurd h (not_lt.mpr (le_last other))
  · intro hparts
    obtain ⟨next, hnext, hle⟩ := hparts
    have hnumber := number_of_next? hnext
    rw [le_def] at hle
    rw [lt_def]
    omega

end CalendarMinute

end Recurrence.Calendar
