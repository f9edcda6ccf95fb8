import Mathlib.Logic.Relation
import Recurrence.Proofs.HorizonReport

/-!
A search ends, and on its way no part of its cursor leaves the word that it is kept in.

A search takes some things for granted: that a sum is still a byte or a year of 16 bits, that
no part of a cursor runs more than one past its greatest value, and that the parts it ends with
are those of a date. `Matcher.guardedStep` is a move that asks for each of these where it is
needed, and reports a breach where it does not hold.

Where every field selects something, nothing is ever breached. The parts of a cursor are within
their units wherever a move starts (`Cursor.WithinUnits`, `Matcher.guardedStep_spec`), the year
is at most one past the last year and the calendar (`Cursor.Kept`), every move keeps this
(`Matcher.kept_of_step`), and so it holds wherever a search comes (`Matcher.kept_of_visits`).
Every move goes forward (`Matcher.lt_of_step`), and the last one stops
(`Matcher.exists_visits_stop`).
-/

set_option autoImplicit false
set_option relaxedAutoImplicit false

namespace Recurrence

open Recurrence.Calendar Recurrence.Occurrences

namespace Occurrences

/-! ### Parts within their units -/

namespace Cursor

variable {cursor : Cursor}

/-- No part is more than one past the greatest value of its unit, and the minute is none. -/
def WithinUnits (cursor : Cursor) : Prop :=
  cursor.month ≤ 13 ∧ cursor.day ≤ 32 ∧ cursor.hour ≤ 24 ∧ cursor.minute ≤ 59

instance (cursor : Cursor) : Decidable cursor.WithinUnits :=
  inferInstanceAs (Decidable (_ ∧ _))

theorem withinUnits_ofMinute (moment : CalendarMinute) : (ofMinute moment).WithinUnits := by
  have hmonth := moment.date.month_bounds
  have hday := moment.date.day_bounds
  have hlength := daysInMonth_le moment.date.year moment.date.month
  have hhour := moment.hour_lt
  have hminute := moment.minute_lt
  simp only [WithinUnits, ofMinute]
  omega

theorem WithinUnits.toMonth (h : cursor.WithinUnits) {month : Nat} (hmonth : month ≤ 12) :
    (cursor.toMonth month).WithinUnits := by
  unfold Cursor.toMonth
  split_ifs
  · exact h
  · simp only [WithinUnits]
    omega

theorem WithinUnits.toDay (h : cursor.WithinUnits) {day : Nat} (hday : day ≤ 31) :
    (cursor.toDay day).WithinUnits := by
  unfold WithinUnits at h
  unfold Cursor.toDay
  split_ifs
  · exact h
  · simp only [WithinUnits]
    omega

theorem WithinUnits.toHour (h : cursor.WithinUnits) {hour : Nat} (hhour : hour ≤ 23) :
    (cursor.toHour hour).WithinUnits := by
  unfold WithinUnits at h
  unfold Cursor.toHour
  split_ifs
  · exact h
  · simp only [WithinUnits]
    omega

/-- What holds of a cursor between two moves of a search from a year: its parts are within their
units, it does not stand further than at the first month after the calendar, and its year is at
most one past the last year and the calendar, if it is not the first. -/
structure Kept (reach : Reach) (firstYear : Int) (cursor : Cursor) : Prop where
  units : cursor.WithinUnits
  inside : cursor.Inside
  year_ge : -9999 ≤ cursor.year
  year_le : cursor.year ≤ max firstYear (min reach.lastYear 9999 + 1)

end Cursor

/-! ### Moves that take nothing for granted -/

/-- What a search takes for granted and what could be breached. -/
inductive Breach
  /-- A part of a cursor is further than one past its greatest value. -/
  | part
  /-- A sum or a difference is no byte. -/
  | byte
  /-- A year does not fit into 16 bits. -/
  | year
  /-- The parts of a cursor are no date, although it stands in the calendar. -/
  | date
deriving DecidableEq

/-- A result for which a condition is needed, and a breach where the condition fails. -/
def require {α : Type} (breach : Breach) (condition : Prop) [Decidable condition]
    (result : Except Breach α) : Except Breach α :=
  if condition then result else .error breach

theorem require_of {α : Type} {breach : Breach} {condition : Prop} [Decidable condition]
    {result : Except Breach α} (h : condition) : require breach condition result = result :=
  if_pos h

/-- The greatest year of 16 bits. -/
def greatestYear : Int := 32767

namespace Matcher

variable {matcher : Matcher} {reach : Reach} {start cursor next : Cursor}

/-- The first selected day of a month, with the sums asked to be bytes: that of the weekday of
the first and a day, one of which is taken away again, and that of a day and one. -/
def guardedFirstDay (matcher : Matcher) (first : Date) (start : Nat) :
    Except Breach (Option Nat) :=
  match _ : matcher.days.nextFrom? start with
  | none => .ok none
  | some day =>
    if first.monthLength < day then .ok none
    else
      require .byte (first.weekday + day ≤ greatestByte ∧ 1 ≤ first.weekday + day) <|
        if matcher.weekdays.contains ((first.weekday + day - 1) % 7) then .ok (some day)
        else require .byte (day + 1 ≤ greatestByte) (matcher.guardedFirstDay first (day + 1))
termination_by 64 - start
decreasing_by
  have := ValueSet.nextFrom?_bounds ‹_›
  omega

/-- The move of a search whose month and day are selected, with the parts asked to be within
their units, the next day and hour to be bytes, and the parts at the end to be a minute. -/
def guardedStepTime (matcher : Matcher) (cursor : Cursor) : Except Breach Move :=
  match matcher.hours.nextFrom? cursor.hour with
  | none => require .byte (cursor.day + 1 ≤ greatestByte) (.ok (.goTo cursor.nextDay))
  | some hour =>
    let atHour := cursor.toHour hour
    require .part atHour.WithinUnits <|
      match matcher.minutes.nextFrom? atHour.minute with
      | none => require .byte (atHour.hour + 1 ≤ greatestByte) (.ok (.goTo atHour.nextHour))
      | some minute =>
        match CalendarMinute.ofParts? atHour.year atHour.month atHour.day atHour.hour minute with
        | none => .error .date
        | some moment => .ok (.stop (.found moment))

/-- The move of a search whose month is selected, with the next month asked to be a byte, and
the first of the month to be missing from the calendar only in the year after it. -/
def guardedStepDay (matcher : Matcher) (cursor : Cursor) : Except Breach Move :=
  match Date.ofParts? cursor.year cursor.month 1 with
  | none => require .date (cursor.year = 10000) (.ok (.stop .pastCalendar))
  | some first => do
    match ← matcher.guardedFirstDay first cursor.day with
    | none => require .byte (cursor.month + 1 ≤ greatestByte) (.ok (.goTo cursor.nextMonth))
    | some day =>
      require .part (cursor.toDay day).WithinUnits (matcher.guardedStepTime (cursor.toDay day))

/-- The next move of a search, with everything asked for that it takes for granted. -/
def guardedStep (matcher : Matcher) (reach : Reach) (cursor : Cursor) : Except Breach Move :=
  require .part cursor.WithinUnits <|
    if reach.lastYear < cursor.year then
      .ok (.stop (if reach.lastYear = reach.horizon then .pastHorizon else .pastLimit))
    else
      match matcher.months.nextFrom? cursor.month with
      | none => require .year (cursor.year + 1 ≤ greatestYear) (.ok (.goTo cursor.nextYear))
      | some month =>
        require .part (cursor.toMonth month).WithinUnits
          (matcher.guardedStepDay (cursor.toMonth month))

/-! ### One move -/

theorem guardedFirstDay_of_none {first : Date} {start : Nat}
    (h : matcher.days.nextFrom? start = none) :
    matcher.guardedFirstDay first start = .ok none := by
  rw [guardedFirstDay]
  split
  · rfl
  · rename_i hsome
    rw [h] at hsome
    cases hsome

theorem guardedFirstDay_of_some {first : Date} {start day : Nat}
    (h : matcher.days.nextFrom? start = some day) :
    matcher.guardedFirstDay first start =
      if first.monthLength < day then .ok none
      else
        require .byte (first.weekday + day ≤ greatestByte ∧ 1 ≤ first.weekday + day) <|
          if matcher.weekdays.contains ((first.weekday + day - 1) % 7) then .ok (some day)
          else
            require .byte (day + 1 ≤ greatestByte) (matcher.guardedFirstDay first (day + 1)) := by
  rw [guardedFirstDay]
  split
  · rename_i hnone
    rw [h] at hnone
    cases hnone
  · rename_i other hsome
    rw [h] at hsome
    cases hsome
    rfl

/-- The sums on the way to the first selected day of a month are bytes, if no day before the first
of the month is tried. -/
theorem guardedFirstDay_eq_ok {first : Date} {start : Nat}
    (hpos : ∀ day, start ≤ day → matcher.days.contains day = true → 1 ≤ day) :
    matcher.guardedFirstDay first start = .ok (matcher.firstDay? first start) := by
  have hweekday : first.weekday ≤ 6 := by
    unfold Date.weekday weekdayOfNumber
    omega
  have hmonth : first.monthLength ≤ 31 := daysInMonth_le first.year first.month
  have hsum {day : Nat} (hday : 1 ≤ day) (hlength : ¬ first.monthLength < day) :
      first.weekday + day ≤ greatestByte ∧ 1 ≤ first.weekday + day := by
    unfold greatestByte
    omega
  have hnext {day : Nat} (hlength : ¬ first.monthLength < day) : day + 1 ≤ greatestByte := by
    unfold greatestByte
    omega
  fun_induction firstDay? matcher first start with
  | case1 start hnone => exact guardedFirstDay_of_none hnone
  | case2 start day hfound hpast => rw [guardedFirstDay_of_some hfound, if_pos hpast]
  | case3 start day hfound hlength hselected =>
    obtain ⟨hle, hmem, -⟩ := ValueSet.nextFrom?_spec hfound
    rw [guardedFirstDay_of_some hfound, if_neg hlength,
      require_of (hsum (hpos day hle hmem) hlength), if_pos hselected]
  | case4 start day hfound hlength hselected ih =>
    obtain ⟨hle, hmem, -⟩ := ValueSet.nextFrom?_spec hfound
    have hlater : ∀ other, day + 1 ≤ other → matcher.days.contains other = true → 1 ≤ other :=
      fun other hother ↦ hpos other (hle.trans (Nat.le_of_succ_le hother))
    rw [guardedFirstDay_of_some hfound, if_neg hlength,
      require_of (hsum (hpos day hle hmem) hlength), if_neg hselected,
      require_of (hnext hlength), ih hlater]

/-- A move on a day of the calendar breaches nothing and leaves the parts within their units. -/
theorem guardedStepTime_spec {date : Date} (hdomains : matcher.WithinDomains)
    (hunits : cursor.WithinUnits)
    (hdate : Date.ofParts? cursor.year cursor.month cursor.day = some date) :
    matcher.guardedStepTime cursor = .ok (matcher.stepTime cursor) ∧
      ∀ next, matcher.stepTime cursor = .goTo next → next.WithinUnits := by
  have hday : cursor.day ≤ 31 := by
    rw [← (Date.ofParts?_eq_some hdate).2.2]
    exact date.day_bounds.2.trans (daysInMonth_le date.year date.month)
  have hparts := hunits
  unfold Cursor.WithinUnits at hparts
  unfold guardedStepTime stepTime
  cases hhour : matcher.hours.nextFrom? cursor.hour with
  | none =>
    have hbyte : cursor.day + 1 ≤ greatestByte := by
      unfold greatestByte
      omega
    refine ⟨require_of hbyte, ?_⟩
    rintro next ⟨⟩
    simp only [Cursor.WithinUnits, Cursor.nextDay]
    omega
  | some hour =>
    have hhours := (ValueSet.nextFrom?_spec hhour).2.1
    have hhour_le : hour ≤ 23 := (hdomains .hour hour hhours).2
    have hatHour := hunits.toHour hhour_le
    dsimp only
    rw [require_of hatHour, Cursor.hour_toHour]
    cases hminute : matcher.minutes.nextFrom? (cursor.toHour hour).minute with
    | none =>
      have hbyte : hour + 1 ≤ greatestByte := by
        unfold greatestByte
        omega
      refine ⟨require_of hbyte, ?_⟩
      rintro next ⟨⟩
      unfold Cursor.WithinUnits at hatHour ⊢
      simp only [Cursor.nextHour, Cursor.hour_toHour] at hatHour ⊢
      omega
    | some minute =>
      have hminutes := (ValueSet.nextFrom?_spec hminute).2.1
      have hminute_lt : minute < 60 := Nat.lt_succ_of_le (hdomains .minute minute hminutes).2
      have hmoment := ofParts?_of_date (Nat.lt_succ_of_le hhour_le) hminute_lt hdate
      rw [Cursor.hour_toHour] at hmoment
      dsimp only
      rw [hmoment]
      refine ⟨rfl, ?_⟩
      rintro next ⟨⟩

/-- A move in a selected month breaches nothing and leaves the parts within their units, if only
the year after the calendar lacks a month. -/
theorem guardedStepDay_spec (hdomains : matcher.WithinDomains) (hunits : cursor.WithinUnits)
    (hmonth : matcher.months.contains cursor.month = true)
    (hcalendar : Date.ofParts? cursor.year cursor.month 1 = none → cursor.year = 10000) :
    matcher.guardedStepDay cursor = .ok (matcher.stepDay cursor) ∧
      ∀ next, matcher.stepDay cursor = .goTo next → next.WithinUnits := by
  have hmonth_le : cursor.month ≤ 12 := (hdomains .month cursor.month hmonth).2
  unfold guardedStepDay stepDay
  cases hfirst : Date.ofParts? cursor.year cursor.month 1 with
  | none => exact ⟨require_of (hcalendar hfirst), nofun⟩
  | some first =>
    dsimp only
    rw [guardedFirstDay_eq_ok fun day _ hdays ↦ (hdomains .dayOfMonth day hdays).1]
    cases hday : matcher.firstDay? first cursor.day with
    | none =>
      have hbyte : cursor.month + 1 ≤ greatestByte := by
        unfold greatestByte
        omega
      refine ⟨require_of hbyte, ?_⟩
      rintro next ⟨⟩
      simp only [Cursor.WithinUnits, Cursor.nextMonth]
      omega
    | some day =>
      obtain ⟨hlength, hdays, -⟩ := (firstDay?_spec hday).1
      have hpos : 1 ≤ day := (hdomains .dayOfMonth day hdays).1
      have hatDay : (cursor.toDay day).WithinUnits :=
        hunits.toDay (hdomains .dayOfMonth day hdays).2
      obtain ⟨hstep, hnext⟩ :=
        guardedStepTime_spec hdomains hatDay (ofParts?_toDay hfirst ⟨hpos, hlength⟩)
      refine ⟨?_, hnext⟩
      rw [← hstep]
      exact require_of hatDay

/-- While a cursor is inside the calendar or at the first month after it, the first of a month is
missing only in the year after the calendar. -/
theorem ofParts?_first_eq_none_iff {month : Nat} (hinside : cursor.Inside)
    (hyear : -9999 ≤ cursor.year) (hmonth : 1 ≤ month ∧ month ≤ 12) :
    Date.ofParts? cursor.year month 1 = none ↔ cursor.year = 10000 := by
  have hlength := daysInMonth_pos cursor.year month
  unfold Cursor.Inside at hinside
  rw [Date.ofParts?_eq_none_iff]
  omega

/-- A move breaches nothing and leaves the parts within their units. -/
theorem guardedStep_spec (hdomains : matcher.WithinDomains) (hunits : cursor.WithinUnits)
    (hinside : cursor.Inside) (hyear : -9999 ≤ cursor.year) :
    matcher.guardedStep reach cursor = .ok (matcher.step reach cursor) ∧
      ∀ next, matcher.step reach cursor = .goTo next → next.WithinUnits := by
  unfold guardedStep step
  rw [require_of hunits]
  split_ifs with hpast
  · exact ⟨rfl, nofun⟩
  · exact ⟨rfl, nofun⟩
  · cases hmonth : matcher.months.nextFrom? cursor.month with
    | none =>
      have hfits : cursor.year + 1 ≤ greatestYear := by
        unfold Cursor.Inside at hinside
        unfold greatestYear
        omega
      refine ⟨require_of hfits, ?_⟩
      rintro next ⟨⟩
      simp only [Cursor.WithinUnits, Cursor.nextYear]
      omega
    | some month =>
      have hmonths := (ValueSet.nextFrom?_spec hmonth).2.1
      have hbounds : 1 ≤ month ∧ month ≤ 12 := hdomains .month month hmonths
      have hatMonth := hunits.toMonth hbounds.2
      obtain ⟨hstep, hnext⟩ := guardedStepDay_spec hdomains hatMonth
        (by rwa [Cursor.month_toMonth]) fun hnone ↦ by
          rw [Cursor.year_toMonth, Cursor.month_toMonth] at hnone
          rw [Cursor.year_toMonth]
          exact (ofParts?_first_eq_none_iff hinside hyear hbounds).mp hnone
      refine ⟨?_, hnext⟩
      rw [← hstep]
      exact require_of hatMonth

/-- A search goes on only in a year that it covers. -/
theorem year_le_of_step (h : matcher.step reach cursor = .goTo next) :
    cursor.year ≤ reach.lastYear := by
  unfold step at h
  split at h
  · cases h
  · rename_i hyear
    exact Int.not_lt.mp hyear

/-- Every move goes forward. -/
theorem lt_of_step (h : matcher.step reach cursor = .goTo next) : cursor < next := by
  refine lt_of_le_of_ne (advances_of_step h).le ?_
  rintro rfl
  exact absurd (remaining_lt_of_step h) (Nat.lt_irrefl _)

/-- Every move keeps a cursor within its bounds. -/
theorem kept_of_step (hdomains : matcher.WithinDomains)
    (hmonths : ∃ month, matcher.months.contains month = true) {firstYear : Int}
    (hkept : cursor.Kept reach firstYear) (h : matcher.step reach cursor = .goTo next) :
    next.Kept reach firstYear := by
  have hinside := inside_of_step hdomains hmonths hkept.inside h
  have hlater := Cursor.year_le_of_le (lt_of_step h).le
  have hcovered := year_le_of_step h
  have hyear_ge := hkept.year_ge
  refine ⟨(guardedStep_spec hdomains hkept.units hkept.inside hyear_ge).2 next h, hinside,
    by omega, ?_⟩
  rcases step_goTo_cases h with ⟨-, rfl⟩ | ⟨-, hsame⟩
  · -- The next year is inside the calendar or the first one after it, so this one is inside.
    simp only [Cursor.Inside, Cursor.nextYear] at hinside ⊢
    omega
  · rw [hsame]
    exact hkept.year_le

/-! ### A whole search -/

/-- A search comes from one cursor to another, in any number of moves. -/
def Visits (matcher : Matcher) (reach : Reach) : Cursor → Cursor → Prop :=
  Relation.ReflTransGen fun cursor next ↦ matcher.step reach cursor = .goTo next

/-- Wherever a search comes, its cursor is within its bounds. -/
theorem kept_of_visits (hdomains : matcher.WithinDomains)
    (hmonths : ∃ month, matcher.months.contains month = true) {firstYear : Int}
    (hkept : start.Kept reach firstYear) (h : matcher.Visits reach start cursor) :
    cursor.Kept reach firstYear := by
  induction h with
  | refl => exact hkept
  | tail _ hstep ih => exact kept_of_step hdomains hmonths ih hstep

/-- A search comes to a cursor at which it stops, and ends as it does there. -/
theorem exists_visits_stop (matcher : Matcher) (reach : Reach) (start : Cursor) :
    ∃ last outcome, matcher.Visits reach start last ∧
      matcher.step reach last = .stop outcome ∧ matcher.run reach start = outcome := by
  fun_induction run matcher reach start with
  | case1 cursor outcome hstep => exact ⟨cursor, outcome, .refl, hstep, rfl⟩
  | case2 cursor next hstep ih =>
    obtain ⟨last, outcome, hvisits, hstop, hrun⟩ := ih
    exact ⟨last, outcome, .head hstep hvisits, hstop, hrun⟩

/-- A search leaves the calendar only in the year after it. -/
theorem year_of_step_eq_pastCalendar (hdomains : matcher.WithinDomains)
    (hinside : cursor.Inside) (hyear : -9999 ≤ cursor.year)
    (h : matcher.step reach cursor = .stop .pastCalendar) : cursor.year = 10000 := by
  unfold Cursor.Inside at hinside
  rcases step_stop_cases hdomains hyear h with
    ⟨-, houtcome⟩ | ⟨-, hpast, -⟩ | ⟨-, moment, houtcome, -⟩
  · split_ifs at houtcome
  · omega
  · cases houtcome

end Matcher

end Occurrences

namespace Expression

/-- A search in which every field selects something ends. Each of its moves goes forward, in the
order of years, months, days, hours and minutes, and wherever one starts, no part is more than
one past its greatest value and the year is at most one past the calendar and the last year.
Nothing that a move takes for granted is breached: every sum is a byte or a year of 16 bits, and
the parts that a search ends with are a date. The first of a selected month is missing only in
year 10000, and only there a search ends because of a date that does not exist. -/
theorem search_keeps_within (expression : Expression) (start : CalendarMinute)
    (limit : Option Int)
    (hfields : ∀ field, ((Matcher.ofExpression expression).get field).isEmpty = false) :
    let matcher := Matcher.ofExpression expression
    let reach := Reach.ofYear start.date.year limit
    (∃ last outcome, matcher.Visits reach (.ofMinute start) last ∧
      matcher.step reach last = .stop outcome ∧ matcher.search start limit = outcome) ∧
    reach.horizon ≤ greatestYear ∧
    ∀ cursor, matcher.Visits reach (.ofMinute start) cursor →
      (∀ next, matcher.step reach cursor = .goTo next → cursor < next) ∧
      cursor.WithinUnits ∧
      cursor.year ≤ max start.date.year (min reach.lastYear 9999 + 1) ∧
      matcher.guardedStep reach cursor = .ok (matcher.step reach cursor) ∧
      (∀ month, matcher.months.nextFrom? cursor.month = some month →
        (Date.ofParts? cursor.year month 1 = none ↔ cursor.year = 10000)) ∧
      (matcher.step reach cursor = .stop .pastCalendar → cursor.year = 10000) := by
  intro matcher reach
  have hdomains : matcher.WithinDomains := Matcher.withinDomains_ofExpression expression
  have hbounds := start.date.year_bounds
  have hselected : matcher.hasEmptyField = false :=
    Matcher.hasEmptyField_eq_false_iff.mpr hfields
  have hmonths := Matcher.exists_contains_get hselected .month
  have hstart : (Cursor.ofMinute start).Kept reach start.date.year :=
    ⟨Cursor.withinUnits_ofMinute start, Or.inl hbounds.2, hbounds.1, le_max_left _ _⟩
  refine ⟨?_, ?_, fun cursor hvisits ↦ ?_⟩
  · rw [Matcher.search, if_neg (by rw [hselected]; exact Bool.false_ne_true)]
    exact matcher.exists_visits_stop reach (.ofMinute start)
  · change start.date.year + 400 ≤ 32767
    omega
  · have hkept := Matcher.kept_of_visits hdomains hmonths hstart hvisits
    refine ⟨fun next ↦ Matcher.lt_of_step, hkept.units, hkept.year_le,
      (Matcher.guardedStep_spec hdomains hkept.units hkept.inside hkept.year_ge).1,
      fun month hmonth ↦ ?_,
      Matcher.year_of_step_eq_pastCalendar hdomains hkept.inside hkept.year_ge⟩
    exact Matcher.ofParts?_first_eq_none_iff hkept.inside hkept.year_ge
      (hdomains .month month (ValueSet.nextFrom?_spec hmonth).2.1)

/-- A search for a day that no year has ends no later than in the year after the calendar. -/
theorem exists_visits_stop_thirtiethsOfFebruary :
    (∀ field, ((Matcher.ofExpression thirtiethsOfFebruary).get field).isEmpty = false) ∧
      ∃ last outcome,
        (Matcher.ofExpression thirtiethsOfFebruary).Visits (Reach.ofYear 9599 none)
          (.ofMinute endOf9599.truncate) last ∧
        (Matcher.ofExpression thirtiethsOfFebruary).step (Reach.ofYear 9599 none) last =
          .stop outcome ∧ last.year ≤ 10000 := by
  have hfields : ∀ field,
      ((Matcher.ofExpression thirtiethsOfFebruary).get field).isEmpty = false := by
    intro field
    cases field <;> decide
  obtain ⟨⟨last, outcome, hvisits, hstop, -⟩, -, hbounds⟩ :=
    search_keeps_within thirtiethsOfFebruary endOf9599.truncate none hfields
  obtain ⟨-, -, hyear, -⟩ := hbounds last hvisits
  exact ⟨hfields, last, outcome, hvisits, hstop, hyear.trans (by decide)⟩

end Expression

end Recurrence
