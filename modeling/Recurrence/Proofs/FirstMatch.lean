import Mathlib.Order.Bounds.Basic
import Recurrence.Proofs.CursorOrder

/-!
A search finds the least match from a minute on, or none exactly where there is none.

One move either goes forward without passing over a match (`Matcher.advances_of_step`) or
stops in one of three ways (`Matcher.step_stop_cases`): behind the last year, behind the
end of the calendar, or at a match with none before it. So the matches still to come are
the same along a whole run, and what the run ends with is the least of them
(`Matcher.run_isLeastOrNone`).

A search looks 400 years ahead at most. Nothing is lost by that, because a match further
away has a match 400 years before it (`Matcher.admits_fourHundredYearsEarlier`): the
least match lies within the horizon (`Matcher.exists_within_horizon`).
-/

set_option autoImplicit false
set_option relaxedAutoImplicit false

namespace Recurrence.Occurrences

open Recurrence.Calendar

/-- A result is the least element of a set, or there is no result and no element. -/
def IsLeastOrNone {α : Type} [PartialOrder α] (candidates : Set α) : Option α → Prop
  | some least => IsLeast candidates least
  | none => candidates = ∅

namespace IsLeastOrNone

variable {α : Type} [PartialOrder α] {candidates : Set α} {result : Option α}

theorem eq_some_iff (h : IsLeastOrNone candidates result) {least : α} :
    result = some least ↔ IsLeast candidates least := by
  cases result with
  | some found =>
    constructor
    · rintro ⟨⟩
      exact h
    · intro hleast
      rw [IsLeast.unique h hleast]
  | none =>
    constructor
    · rintro ⟨⟩
    · intro hleast
      have hmem := hleast.1
      rw [show candidates = ∅ from h] at hmem
      cases hmem

theorem eq_none_iff (h : IsLeastOrNone candidates result) :
    result = none ↔ candidates = ∅ := by
  cases result with
  | some found =>
    constructor
    · rintro ⟨⟩
    · intro hempty
      have hmem : found ∈ candidates := h.1
      rw [hempty] at hmem
      cases hmem
  | none => exact ⟨fun _ ↦ h, fun _ ↦ rfl⟩

/-- There is one result at most. -/
theorem unique {other : Option α} (h : IsLeastOrNone candidates result)
    (hother : IsLeastOrNone candidates other) : result = other := by
  cases result with
  | some found => exact (hother.eq_some_iff.mpr h).symm
  | none => exact (hother.eq_none_iff.mpr h).symm

end IsLeastOrNone

namespace ValueSet

/-- A set of a pattern holds values of its domain only. -/
theorem admits_of_contains_ofPattern {bounds : Bounds} {pattern : Pattern} {value : Nat}
    (h : (ofPattern bounds pattern).contains value = true) : bounds.Admits value := by
  have hmem := ((contains_ofList _ _).mp h).2
  exact of_decide_eq_true (List.mem_filter.mp hmem).2

end ValueSet

namespace Matcher

variable {matcher : Matcher} {reach : Reach} {cursor next : Cursor}

/-! ### Domains -/

/-- Every value that a matcher selects belongs to the domain of its field. -/
def WithinDomains (matcher : Matcher) : Prop :=
  ∀ field value, (matcher.get field).contains value = true → field.bounds.Admits value

theorem withinDomains_ofExpression (expression : Expression) :
    (ofExpression expression).WithinDomains := by
  intro field value h
  cases field <;> exact ValueSet.admits_of_contains_ofPattern h

/-- Where a field selects nothing, no minute matches. -/
theorem admits_eq_false_of_hasEmptyField (h : matcher.hasEmptyField = true)
    (moment : CalendarMinute) : matcher.admits moment = false := by
  simp only [hasEmptyField, Bool.or_eq_true, ValueSet.isEmpty_iff] at h
  rcases h with (((h | h) | h) | h) | h <;> simp [admits, h]

/-! ### One move -/

/-- A search moves on within a month and a day without passing over a match. -/
theorem advances_of_stepTime (h : matcher.stepTime cursor = .goTo next) :
    matcher.Advances cursor next := by
  unfold stepTime at h
  split at h
  · rename_i hhour
    cases h
    exact advances_nextDay hhour
  · rename_i hour hhour
    dsimp only at h
    split at h
    · rename_i hminute
      cases h
      exact (advances_toHour hhour).trans (advances_nextHour hminute)
    · split at h <;> cases h

theorem advances_of_stepDay (h : matcher.stepDay cursor = .goTo next) :
    matcher.Advances cursor next := by
  unfold stepDay at h
  split at h
  · cases h
  · rename_i first hfirst
    split at h
    · rename_i hday
      cases h
      exact advances_nextMonth hfirst hday
    · rename_i day hday
      exact (advances_toDay hfirst hday).trans (advances_of_stepTime h)

/-- A search moves on without passing over a match. -/
theorem advances_of_step (h : matcher.step reach cursor = .goTo next) :
    matcher.Advances cursor next := by
  unfold step at h
  split at h
  · cases h
  · split at h
    · rename_i hmonth
      cases h
      exact advances_nextYear hmonth
    · rename_i month hmonth
      exact (advances_toMonth hmonth).trans (advances_of_stepDay h)

/-- The parts of a date and of a time of day are those of a minute. -/
theorem ofParts?_of_date {date : Date} {hour minute : Nat} (hhour : hour < 24)
    (hminute : minute < 60)
    (hdate : Date.ofParts? cursor.year cursor.month cursor.day = some date) :
    CalendarMinute.ofParts? (cursor.toHour hour).year (cursor.toHour hour).month
      (cursor.toHour hour).day (cursor.toHour hour).hour minute =
        some ⟨date, hour, minute, hhour, hminute⟩ := by
  rw [Cursor.year_toHour, Cursor.month_toHour, Cursor.day_toHour, Cursor.hour_toHour,
    CalendarMinute.ofParts?, hdate]
  simp [hhour, hminute]

/-- A day up to the length of a month of the calendar is a date of it. -/
theorem ofParts?_toDay {first : Date} {day : Nat}
    (hfirst : Date.ofParts? cursor.year cursor.month 1 = some first)
    (hday : 1 ≤ day ∧ day ≤ first.monthLength) :
    Date.ofParts? (cursor.toDay day).year (cursor.toDay day).month (cursor.toDay day).day =
      some ⟨first.year, first.month, day, first.year_bounds, first.month_bounds, hday⟩ := by
  obtain ⟨hyear, hmonth, -⟩ := Date.ofParts?_eq_some hfirst
  rw [Cursor.year_toDay, Cursor.month_toDay, Cursor.day_toDay, ← hyear, ← hmonth]
  exact Date.ofParts?_of_bounds first.year_bounds first.month_bounds hday

/-- A search on a day of the calendar stops there only at a minute whose hour and minute are
selected, and passes over no match. -/
theorem stepTime_stop {outcome : Outcome} {date : Date} (hdomains : matcher.WithinDomains)
    (hdate : Date.ofParts? cursor.year cursor.month cursor.day = some date)
    (h : matcher.stepTime cursor = .stop outcome) :
    ∃ moment, outcome = .found moment ∧ moment.date = date ∧
      matcher.hours.contains moment.hour = true ∧
        matcher.minutes.contains moment.minute = true ∧
          matcher.Advances cursor (.ofMinute moment) := by
  unfold stepTime at h
  split at h
  · cases h
  · rename_i hour hhour
    dsimp only at h
    split at h
    · cases h
    · rename_i minute hminute
      have hhours := (ValueSet.nextFrom?_spec hhour).2.1
      have hminutes := (ValueSet.nextFrom?_spec hminute).2.1
      have hhour_lt : hour < 24 := Nat.lt_succ_of_le (hdomains .hour hour hhours).2
      have hminute_lt : minute < 60 := Nat.lt_succ_of_le (hdomains .minute minute hminutes).2
      have hparts := Date.ofParts?_eq_some hdate
      rw [ofParts?_of_date hhour_lt hminute_lt hdate] at h
      cases h
      refine ⟨_, rfl, rfl, hhours, hminutes, ?_⟩
      have hcursor : { cursor.toHour hour with minute } =
          Cursor.ofMinute ⟨date, hour, minute, hhour_lt, hminute_lt⟩ := by
        simp [Cursor.ofMinute, hparts]
      rw [← hcursor]
      exact (advances_toHour hhour).trans (advances_minute hminute)

/-- A search in a selected month stops only at a match, and passes over none before it, or
because the calendar does not have the month. -/
theorem stepDay_stop {outcome : Outcome} (hdomains : matcher.WithinDomains)
    (hmonth : matcher.months.contains cursor.month = true)
    (h : matcher.stepDay cursor = .stop outcome) :
    Date.ofParts? cursor.year cursor.month 1 = none ∧ outcome = .pastCalendar ∨
      ∃ moment, outcome = .found moment ∧ matcher.admits moment = true ∧
        moment.date.year = cursor.year ∧ matcher.Advances cursor (.ofMinute moment) := by
  unfold stepDay at h
  split at h
  · rename_i hfirst
    cases h
    exact Or.inl ⟨hfirst, rfl⟩
  · rename_i first hfirst
    split at h
    · cases h
    · rename_i day hday
      right
      obtain ⟨hyear, hmonths, hone⟩ := Date.ofParts?_eq_some hfirst
      obtain ⟨hlength, hdays, hweekday⟩ := (firstDay?_spec hday).1
      have hpos : 1 ≤ day := (hdomains .dayOfMonth day hdays).1
      obtain ⟨moment, rfl, hmoment, hhours, hminutes, hadvances⟩ :=
        stepTime_stop hdomains (ofParts?_toDay hfirst ⟨hpos, hlength⟩) h
      have hsameYear : moment.date.year = first.year := by rw [hmoment]
      have hsameMonth : moment.date.month = first.month := by rw [hmoment]
      have hsameDay : moment.date.day = day := by rw [hmoment]
      refine ⟨moment, rfl, admits_iff.mpr ⟨?_, ?_, ?_, hhours, hminutes⟩, hsameYear.trans hyear,
        (advances_toDay hfirst hday).trans hadvances⟩
      · rw [hsameMonth, hmonths]
        exact hmonth
      · rw [hsameDay]
        exact hdays
      · rw [Date.weekday_of_first hone hsameYear hsameMonth, hsameDay]
        exact hweekday

/-- How a search stops: behind its last year, behind the end of the calendar, or at a match
with none before it. -/
theorem step_stop_cases {outcome : Outcome} (hdomains : matcher.WithinDomains)
    (hyear : -9999 ≤ cursor.year) (h : matcher.step reach cursor = .stop outcome) :
    reach.lastYear < cursor.year ∧
        outcome = (if reach.lastYear = reach.horizon then .pastHorizon else .pastLimit) ∨
      cursor.year ≤ reach.lastYear ∧ 9999 < cursor.year ∧ outcome = .pastCalendar ∨
      cursor.year ≤ reach.lastYear ∧ ∃ moment, outcome = .found moment ∧
        matcher.admits moment = true ∧ moment.date.year = cursor.year ∧
          matcher.Advances cursor (.ofMinute moment) := by
  unfold step at h
  split at h
  · rename_i hpast
    cases h
    exact Or.inl ⟨hpast, rfl⟩
  · rename_i hpast
    right
    split at h
    · cases h
    · rename_i month hmonth
      have hmonths := (ValueSet.nextFrom?_spec hmonth).2.1
      have hbounds : 1 ≤ month ∧ month ≤ 12 := hdomains .month month hmonths
      have hselected : matcher.months.contains (cursor.toMonth month).month = true := by
        rw [Cursor.month_toMonth]
        exact hmonths
      rcases stepDay_stop hdomains hselected h with
        ⟨hnone, rfl⟩ | ⟨moment, rfl, hadmits, hsame, hadvances⟩
      · left
        rw [Cursor.year_toMonth, Cursor.month_toMonth, Date.ofParts?_eq_none_iff] at hnone
        have hlength := daysInMonth_pos cursor.year month
        exact ⟨Int.not_lt.mp hpast, by omega, rfl⟩
      · right
        rw [Cursor.year_toMonth] at hsame
        exact ⟨Int.not_lt.mp hpast, moment, rfl, hadmits, hsame,
          (advances_toMonth hmonth).trans hadvances⟩

/-! ### A whole run -/

/-- The matches in front of which a cursor stands, up to the end of a year. -/
def matchesFrom (matcher : Matcher) (lastYear : Int) (cursor : Cursor) : Set CalendarMinute :=
  {moment | matcher.admits moment = true ∧ cursor ≤ .ofMinute moment ∧
    moment.date.year ≤ lastYear}

/-- Going forward without passing over a match leaves the matches to come as they are. -/
theorem Advances.matchesFrom_eq (h : matcher.Advances cursor next) (lastYear : Int) :
    matcher.matchesFrom lastYear cursor = matcher.matchesFrom lastYear next := by
  ext moment
  constructor
  · intro hmem
    obtain ⟨hadmits, hle, hyear⟩ := hmem
    exact ⟨hadmits, h.keeps moment hadmits hle, hyear⟩
  · intro hmem
    obtain ⟨hadmits, hle, hyear⟩ := hmem
    exact ⟨hadmits, h.le.trans hle, hyear⟩

/-- What a search stops with is the least match to come, if there is one. -/
theorem step_stop_isLeastOrNone {outcome : Outcome} (hdomains : matcher.WithinDomains)
    (hyear : -9999 ≤ cursor.year) (h : matcher.step reach cursor = .stop outcome) :
    IsLeastOrNone (matcher.matchesFrom reach.lastYear cursor) outcome.moment? := by
  have hyears {moment : CalendarMinute} (hle : cursor ≤ .ofMinute moment) :
      cursor.year ≤ moment.date.year := Cursor.year_le_of_le hle
  rcases step_stop_cases hdomains hyear h with
    ⟨hpast, rfl⟩ | ⟨-, hpast, rfl⟩ | ⟨hlast, moment, rfl, hadmits, hsame, hadvances⟩
  · have hnone : matcher.matchesFrom reach.lastYear cursor = ∅ := by
      rw [Set.eq_empty_iff_forall_notMem]
      intro moment hmem
      obtain ⟨-, hle, hlimit⟩ := hmem
      have hlater := hyears hle
      omega
    split_ifs <;> exact hnone
  · change matcher.matchesFrom reach.lastYear cursor = ∅
    rw [Set.eq_empty_iff_forall_notMem]
    intro moment hmem
    obtain ⟨-, hle, -⟩ := hmem
    have hlater := hyears hle
    have hbounds := moment.date.year_bounds
    omega
  · refine ⟨⟨hadmits, hadvances.le, by omega⟩, ?_⟩
    intro other hmem
    obtain ⟨hother, hle, -⟩ := hmem
    exact Cursor.ofMinute_le_ofMinute_iff.mp (hadvances.keeps other hother hle)

/-- A run ends with the least match to come, if there is one. -/
theorem run_isLeastOrNone (hdomains : matcher.WithinDomains) (hyear : -9999 ≤ cursor.year) :
    IsLeastOrNone (matcher.matchesFrom reach.lastYear cursor)
      (matcher.run reach cursor).moment? := by
  fun_induction run matcher reach cursor with
  | case1 cursor outcome hstep => exact step_stop_isLeastOrNone hdomains hyear hstep
  | case2 cursor next hstep ih =>
    have hadvances := advances_of_step hstep
    have hlater := Cursor.year_le_of_le hadvances.le
    rw [hadvances.matchesFrom_eq]
    exact ih (by omega)

/-! ### The horizon -/

/-- The same month, day and time of day 400 years before. -/
def fourHundredYearsEarlier (moment : CalendarMinute) (h : -9999 ≤ moment.date.year - 400) :
    CalendarMinute :=
  { moment with
    date :=
      { moment.date with
        year := moment.date.year - 400
        year_bounds := ⟨h, by have := moment.date.year_bounds; omega⟩
        day_bounds := by
          rw [← daysInMonth_add_four_hundred, Int.sub_add_cancel]
          exact moment.date.day_bounds } }

/-- A match is a match 400 years before too. -/
theorem admits_fourHundredYearsEarlier {moment : CalendarMinute}
    (h : -9999 ≤ moment.date.year - 400) (hadmits : matcher.admits moment = true) :
    matcher.admits (fourHundredYearsEarlier moment h) = true := by
  have hweekday : (fourHundredYearsEarlier moment h).date.weekday = moment.date.weekday := by
    have hcycle := weekday_add_four_hundred_years (moment.date.year - 400) moment.date.month
      moment.date.day
    rw [Int.sub_add_cancel] at hcycle
    exact hcycle.symm
  rw [admits_iff] at hadmits ⊢
  rw [hweekday]
  exact hadmits

/-- Going back 400 years goes back. -/
theorem fourHundredYearsEarlier_lt {moment : CalendarMinute}
    (h : -9999 ≤ moment.date.year - 400) : fourHundredYearsEarlier moment h < moment := by
  rw [← Cursor.ofMinute_lt_ofMinute_iff, Cursor.lt_iff]
  exact Or.inl (Int.sub_lt_self _ (by decide))

/-- Minutes of a later year are later. -/
theorem lt_of_year_lt {earlier later : CalendarMinute}
    (h : earlier.date.year < later.date.year) : earlier < later := by
  rw [← Cursor.ofMinute_lt_ofMinute_iff, Cursor.lt_iff]
  exact Or.inl h

/-- Where there is a match from a minute on, there is one no later within the horizon. -/
theorem exists_within_horizon {start moment : CalendarMinute}
    (hadmits : matcher.admits moment = true) (hstart : start ≤ moment) :
    ∃ found, matcher.admits found = true ∧ start ≤ found ∧ found ≤ moment ∧
      found.date.year ≤ start.date.year + Reach.horizonYears := by
  have hnonempty : {found | matcher.admits found = true ∧ start ≤ found ∧
      found ≤ moment}.Nonempty := ⟨moment, hadmits, hstart, le_refl moment⟩
  obtain ⟨least, ⟨hleast, hafter, hbefore⟩, hminimal⟩ :=
    (Set.toFinite _).exists_minimal hnonempty
  refine ⟨least, hleast, hafter, hbefore, ?_⟩
  by_contra hfar
  have hyears : start.date.year < least.date.year - 400 := by
    unfold Reach.horizonYears at hfar
    omega
  have hfirst := start.date.year_bounds
  have hcalendar : -9999 ≤ least.date.year - 400 := by omega
  have hearlier := fourHundredYearsEarlier_lt hcalendar
  have hlater : start < fourHundredYearsEarlier least hcalendar := lt_of_year_lt hyears
  have hless := hminimal ⟨admits_fourHundredYearsEarlier hcalendar hleast, hlater.le,
    hearlier.le.trans hbefore⟩ hearlier.le
  exact absurd hearlier (not_lt.mpr hless)

/-- The matches from a minute on, in the years up to a limit if there is one. -/
def matchesWithin (matcher : Matcher) (start : CalendarMinute) (limit : Option Int) :
    Set CalendarMinute :=
  {moment | matcher.admits moment = true ∧ start ≤ moment ∧
    ∀ year ∈ limit, moment.date.year ≤ year}

/-- The least match that a search can reach is the least of all. -/
theorem isLeastOrNone_of_reach {start : CalendarMinute} {limit : Option Int}
    {result : Option CalendarMinute}
    (h : IsLeastOrNone (matcher.matchesFrom (Reach.ofYear start.date.year limit).lastYear
      (.ofMinute start)) result) :
    IsLeastOrNone (matcher.matchesWithin start limit) result := by
  have hreach {moment : CalendarMinute} :
      moment.date.year ≤ (Reach.ofYear start.date.year limit).lastYear ↔
        moment.date.year ≤ start.date.year + Reach.horizonYears ∧
          ∀ year ∈ limit, moment.date.year ≤ year := by
    cases limit with
    | none => simp [Reach.ofYear]
    | some year =>
      simp only [Reach.ofYear, Option.elim_some, Option.mem_some_iff, forall_eq']
      omega
  have hnear {moment : CalendarMinute} (hmem : moment ∈ matcher.matchesWithin start limit) :
      ∃ found ∈ matcher.matchesFrom (Reach.ofYear start.date.year limit).lastYear
        (.ofMinute start), found ≤ moment := by
    obtain ⟨hadmits, hstart, hlimit⟩ := hmem
    obtain ⟨found, hfound, hafter, hbefore, hhorizon⟩ := exists_within_horizon hadmits hstart
    have hyear : found.date.year ≤ moment.date.year := Cursor.year_le_of_le
      (Cursor.ofMinute_le_ofMinute_iff.mpr hbefore)
    exact ⟨found, ⟨hfound, Cursor.ofMinute_le_ofMinute_iff.mpr hafter,
      hreach.mpr ⟨hhorizon, fun year hmem ↦ hyear.trans (hlimit year hmem)⟩⟩, hbefore⟩
  cases result with
  | none =>
    change matcher.matchesWithin start limit = ∅
    rw [Set.eq_empty_iff_forall_notMem]
    intro moment hmem
    obtain ⟨found, hfound, -⟩ := hnear hmem
    rw [show matcher.matchesFrom _ _ = ∅ from h] at hfound
    cases hfound
  | some least =>
    obtain ⟨⟨hadmits, hstart, hyear⟩, hleast⟩ := h
    refine ⟨⟨hadmits, Cursor.ofMinute_le_ofMinute_iff.mp hstart, (hreach.mp hyear).2⟩, ?_⟩
    intro moment hmem
    obtain ⟨found, hfound, hle⟩ := hnear hmem
    exact (hleast hfound).trans hle

/-- A search finds the least match from a minute on, in the years up to a limit if there is
one. -/
theorem firstAtOrAfter?_isLeastOrNone (hdomains : matcher.WithinDomains)
    (start : CalendarMinute) (limit : Option Int) :
    IsLeastOrNone (matcher.matchesWithin start limit) (matcher.firstAtOrAfter? start limit) := by
  unfold firstAtOrAfter? search
  split_ifs with hempty
  · change matcher.matchesWithin start limit = ∅
    rw [Set.eq_empty_iff_forall_notMem]
    intro moment h
    obtain ⟨hadmits, -, -⟩ := h
    rw [admits_eq_false_of_hasEmptyField hempty] at hadmits
    cases hadmits
  · exact isLeastOrNone_of_reach (run_isLeastOrNone hdomains start.date.year_bounds.1)

/-- No match lies in the years up to a limit exactly where every minute in them fails. -/
theorem matchesWithin_eq_empty_iff {start : CalendarMinute} {limit : Option Int} :
    matcher.matchesWithin start limit = ∅ ↔
      ∀ moment, start ≤ moment → (∀ year ∈ limit, moment.date.year ≤ year) →
        matcher.admits moment = false := by
  rw [Set.eq_empty_iff_forall_notMem]
  constructor
  · intro h moment hstart hlimit
    by_contra hadmits
    exact h moment ⟨Bool.eq_true_of_not_eq_false hadmits, hstart, hlimit⟩
  · intro h moment hmem
    obtain ⟨hadmits, hstart, hlimit⟩ := hmem
    rw [h moment hstart hlimit] at hadmits
    cases hadmits

/-- A limit behind the horizon does not change how far a search reaches. -/
theorem ofYear_of_horizon_le {start limit : Int} (h : start + Reach.horizonYears ≤ limit) :
    Reach.ofYear start (some limit) = Reach.ofYear start none := by
  simp only [Reach.ofYear, Option.elim_some, Option.elim_none, min_eq_right h]

/-- A search for an expression finds exactly the least minute from its start on that matches
and lies in the years up to the limit, and none exactly where there is none. So without a
limit none is found only where nothing matches up to the end of the calendar, and a limit
behind the horizon changes nothing. -/
theorem firstAtOrAfter?_ofExpression (expression : Expression) (start : CalendarMinute)
    (limit : Option Int) :
    (∀ found, (ofExpression expression).firstAtOrAfter? start limit = some found ↔
      IsLeast {moment | expression.matchesAt moment.start = true ∧ start ≤ moment ∧
        ∀ year ∈ limit, moment.date.year ≤ year} found) ∧
    ((ofExpression expression).firstAtOrAfter? start limit = none ↔
      ∀ moment, start ≤ moment → (∀ year ∈ limit, moment.date.year ≤ year) →
        expression.matchesAt moment.start = false) ∧
    ((ofExpression expression).firstAtOrAfter? start none = none ↔
      ∀ moment, start ≤ moment → expression.matchesAt moment.start = false) ∧
    ∀ year, start.date.year + Reach.horizonYears ≤ year →
      (ofExpression expression).firstAtOrAfter? start (some year) =
        (ofExpression expression).firstAtOrAfter? start none := by
  have hspec (bound : Option Int) :=
    firstAtOrAfter?_isLeastOrNone (withinDomains_ofExpression expression) start bound
  have hnone (bound : Option Int) :=
    (hspec bound).eq_none_iff.trans matchesWithin_eq_empty_iff
  refine ⟨fun found ↦ (hspec limit).eq_some_iff, hnone limit, ?_, ?_⟩
  · refine (hnone none).trans ⟨fun h moment hstart ↦ h moment hstart ?_,
      fun h moment hstart _ ↦ h moment hstart⟩
    rintro year ⟨⟩
  · intro year h
    rw [firstAtOrAfter?, firstAtOrAfter?, search, search, ofYear_of_horizon_le h]

end Matcher

end Recurrence.Occurrences
