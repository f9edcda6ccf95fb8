import Recurrence.Proofs.Satisfiability

/-!
When a search reports that it found nothing within its horizon.

A search without a match ends behind its last year or behind the calendar, and which of them
it is depends on its reach alone (`Matcher.run_cases`): a cursor that leaves the calendar
stands at the first month of year 10000 and stops there (`Cursor.Inside`). So the report is
made exactly where no date is selected and the whole horizon lies in the calendar and before
the limit (`Matcher.search_eq_pastHorizon_iff`).

An expression that can match never makes the report, from whatever minute its search starts
(`Occurrences.events_calls_of_satisfiable`). Any other expression ends with the first call,
and only this call searches (`Occurrences.calls_of_not_satisfiable`). Over a whole sequence of
calls the report is made once or never (`Expression.events_calls_occurrences`).
-/

set_option autoImplicit false
set_option relaxedAutoImplicit false

namespace Recurrence

open Recurrence.Calendar Recurrence.Occurrences

namespace Occurrences

/-! ### Leaving the calendar -/

/-- A cursor stands in a year of the calendar, or at the first month after it. -/
def Cursor.Inside (cursor : Cursor) : Prop :=
  cursor.year ≤ 9999 ∨ cursor.year = 10000 ∧ cursor.month = 1

namespace Matcher

variable {matcher : Matcher} {reach : Reach} {cursor next : Cursor}

theorem year_of_stepTime (h : matcher.stepTime cursor = .goTo next) :
    next.year = cursor.year := by
  unfold stepTime at h
  split at h
  · cases h
    rfl
  · dsimp only at h
    split at h
    · cases h
      exact Cursor.year_toHour cursor _
    · split at h <;> cases h

theorem year_of_stepDay (h : matcher.stepDay cursor = .goTo next) :
    cursor.year ≤ 9999 ∧ next.year = cursor.year := by
  unfold stepDay at h
  split at h
  · cases h
  · rename_i first hfirst
    have hyear : cursor.year ≤ 9999 := by
      rw [← (Date.ofParts?_eq_some hfirst).1]
      exact first.year_bounds.2
    split at h
    · cases h
      exact ⟨hyear, rfl⟩
    · exact ⟨hyear, (year_of_stepTime h).trans (Cursor.year_toDay cursor _)⟩

/-- A search moves on to the next year where no month is left, and otherwise stays in a year of
the calendar. -/
theorem step_goTo_cases (h : matcher.step reach cursor = .goTo next) :
    matcher.months.nextFrom? cursor.month = none ∧ next = cursor.nextYear ∨
      cursor.year ≤ 9999 ∧ next.year = cursor.year := by
  unfold step at h
  split at h
  · cases h
  · split at h
    · rename_i hmonth
      cases h
      exact Or.inl ⟨hmonth, rfl⟩
    · rename_i month hmonth
      have hyear := year_of_stepDay h
      rw [Cursor.year_toMonth] at hyear
      exact Or.inr hyear

/-- A search does not go further than to the first month after the calendar. -/
theorem inside_of_step (hdomains : matcher.WithinDomains)
    (hmonths : ∃ month, matcher.months.contains month = true) (hinside : cursor.Inside)
    (h : matcher.step reach cursor = .goTo next) : next.Inside := by
  rcases step_goTo_cases h with ⟨hnone, rfl⟩ | ⟨hyear, hsame⟩
  · rcases hinside with hyear | ⟨-, hfirst⟩
    · simp only [Cursor.Inside, Cursor.nextYear, and_true]
      omega
    · obtain ⟨month, hmonth⟩ := hmonths
      have hpos : 1 ≤ month := (hdomains .month month hmonth).1
      have hlt := ValueSet.lt_of_nextFrom?_eq_none hnone hmonth
      omega
  · exact Or.inl (hsame ▸ hyear)

/-! ### The ways to end -/

/-- A run without a match ends behind its last year if that is a year of the calendar, and
behind the calendar otherwise. -/
theorem run_cases (hdomains : matcher.WithinDomains)
    (hmonths : ∃ month, matcher.months.contains month = true) (hinside : cursor.Inside)
    (hyear : -9999 ≤ cursor.year) :
    (∃ moment, matcher.run reach cursor = .found moment) ∨
      reach.lastYear ≤ 9999 ∧ matcher.run reach cursor =
        (if reach.lastYear = reach.horizon then .pastHorizon else .pastLimit) ∨
      9999 < reach.lastYear ∧ matcher.run reach cursor = .pastCalendar := by
  -- Along the run the cursor stays in the calendar or at the first month after it, so a last year
  -- that it has passed is a year of the calendar.
  fun_induction run matcher reach cursor with
  | case1 cursor outcome hstep =>
    rcases step_stop_cases hdomains hyear hstep with
      ⟨hpast, rfl⟩ | ⟨hlast, hpast, rfl⟩ | ⟨-, moment, rfl, -⟩
    · have hlast : reach.lastYear ≤ 9999 := by
        unfold Cursor.Inside at hinside
        omega
      exact Or.inr (Or.inl ⟨hlast, rfl⟩)
    · exact Or.inr (Or.inr ⟨by omega, rfl⟩)
    · exact Or.inl ⟨moment, rfl⟩
  | case2 cursor next hstep ih =>
    have hlater := Cursor.year_le_of_le (advances_of_step hstep).le
    exact ih (inside_of_step hdomains hmonths hinside hstep) (by omega)

/-- A run ends behind its horizon exactly where it finds nothing, the horizon lies in the
calendar, and no limit comes before it. -/
theorem run_eq_pastHorizon_iff (hdomains : matcher.WithinDomains)
    (hmonths : ∃ month, matcher.months.contains month = true) (hinside : cursor.Inside)
    (hyear : -9999 ≤ cursor.year) :
    matcher.run reach cursor = .pastHorizon ↔
      (matcher.run reach cursor).moment? = none ∧ reach.lastYear = reach.horizon ∧
        reach.horizon ≤ 9999 := by
  rcases run_cases hdomains hmonths hinside hyear with
    ⟨moment, hrun⟩ | ⟨hlast, hrun⟩ | ⟨hlast, hrun⟩ <;> rw [hrun]
  · simp [Outcome.moment?]
  · split_ifs with hhorizon
    · simp [Outcome.moment?, hhorizon, hhorizon ▸ hlast]
    · simp [hhorizon]
  · simp only [reduceCtorEq, false_iff]
    omega

/-- A search looks as far as its horizon where no limit comes before it. -/
theorem lastYear_eq_horizon_iff {year : Int} {limit : Option Int} :
    (Reach.ofYear year limit).lastYear = (Reach.ofYear year limit).horizon ↔
      ∀ last ∈ limit, year + 400 ≤ last := by
  cases limit with
  | none => simp [Reach.ofYear]
  | some last => simp [Reach.ofYear, Reach.horizonYears]

/-- What can match at all is found where a whole horizon lies in the calendar and before the
limit. -/
theorem Satisfiable.firstAtOrAfter?_ne_none (h : matcher.Satisfiable)
    (hdomains : matcher.WithinDomains) {start : CalendarMinute} {limit : Option Int}
    (hcalendar : start.date.year ≤ 9599) (hlimit : ∀ last ∈ limit, start.date.year + 400 ≤ last) :
    matcher.firstAtOrAfter? start limit ≠ none := by
  intro hnone
  rw [(firstAtOrAfter?_isLeastOrNone hdomains start limit).eq_none_iff] at hnone
  obtain ⟨moment, hadmits, hafter, hbefore⟩ :=
    h.exists_admits hdomains ⟨start.date.year_bounds.1, hcalendar⟩
  have hmem : moment ∈ matcher.matchesWithin start limit :=
    ⟨hadmits, (lt_of_year_lt hafter).le, fun last hlast ↦ hbefore.trans (hlimit last hlast)⟩
  rw [hnone] at hmem
  exact hmem

/-- What cannot match is not found. -/
theorem firstAtOrAfter?_of_not_satisfiable (hdomains : matcher.WithinDomains)
    (h : ¬ matcher.Satisfiable) (start : CalendarMinute) (limit : Option Int) :
    matcher.firstAtOrAfter? start limit = none := by
  rw [(firstAtOrAfter?_isLeastOrNone hdomains start limit).eq_none_iff,
    Set.eq_empty_iff_forall_notMem]
  intro moment hmem
  exact h (satisfiable_of_admits hmem.1)

/-- A search reports that nothing was found within its horizon exactly where every field selects
something, no date is selected, and the 400 years lie in the calendar and before the limit. -/
theorem search_eq_pastHorizon_iff (hdomains : matcher.WithinDomains) (start : CalendarMinute)
    (limit : Option Int) :
    matcher.search start limit = .pastHorizon ↔
      matcher.hasEmptyField = false ∧ ¬ matcher.SelectsDate ∧ start.date.year ≤ 9599 ∧
        ∀ last ∈ limit, start.date.year + 400 ≤ last := by
  by_cases hfields : matcher.hasEmptyField = true
  · simp [search, hfields]
  · rw [Bool.not_eq_true] at hfields
    have hbounds := start.date.year_bounds
    have hinside : (Cursor.ofMinute start).Inside := Or.inl hbounds.2
    have hsearch : matcher.search start limit =
        matcher.run (Reach.ofYear start.date.year limit) (.ofMinute start) := by
      simp [search, hfields]
    have hhorizon : (Reach.ofYear start.date.year limit).horizon = start.date.year + 400 := rfl
    rw [hsearch, run_eq_pastHorizon_iff hdomains (exists_contains_get hfields .month) hinside
      hbounds.1, ← hsearch, lastYear_eq_horizon_iff, hhorizon]
    change matcher.firstAtOrAfter? start limit = none ∧ _ ↔ _
    constructor
    · intro hparts
      obtain ⟨hnone, hlimit, hcalendar⟩ := hparts
      have hstart : start.date.year ≤ 9599 := by omega
      refine ⟨hfields, fun hdate ↦ ?_, hstart, hlimit⟩
      have hsatisfiable : matcher.Satisfiable := ⟨hfields, hdate⟩
      exact hsatisfiable.firstAtOrAfter?_ne_none hdomains hstart hlimit hnone
    · intro hparts
      obtain ⟨-, hdate, hcalendar, hlimit⟩ := hparts
      have hnot : ¬ matcher.Satisfiable := fun h ↦ hdate h.date
      exact ⟨firstAtOrAfter?_of_not_satisfiable hdomains hnot start limit, hlimit, by omega⟩

end Matcher

end Occurrences

/-! ### Calls of an iterator -/

namespace Occurrences

/-- Only a search that ended behind its horizon makes an entry. -/
theorem Outcome.events_eq_nil {outcome : Outcome} (h : outcome ≠ .pastHorizon)
    (start : CalendarMinute) : outcome.events start = [] := by
  cases outcome with
  | pastHorizon => exact absurd rfl h
  | found | nothingSelected | pastLimit | pastCalendar => rfl

variable {occurrences : Occurrences}

/-- So many calls of `next`, one after another: what each of them answers, and the log entries
that all of them make. -/
def calls : Nat → Occurrences → Logged (List (Option CalendarMinute))
  | 0, _ => pure []
  | count + 1, occurrences => do
    let (answer, rest) ← occurrences.next
    let later ← rest.calls count
    return answer :: later

/-- So many calls are the next one and those on what it leaves. -/
theorem calls_succ (count : Nat) (occurrences : Occurrences) :
    occurrences.calls (count + 1) =
      ⟨occurrences.next.result.1 :: (occurrences.next.result.2.calls count).result,
        occurrences.next.events ++ (occurrences.next.result.2.calls count).events⟩ := by
  simp [calls, bind, pure]

/-- A call makes the entries of its search. -/
theorem events_next {position : CalendarMinute} (hposition : occurrences.position = some position) :
    occurrences.next.events = (occurrences.matcher.search position
      (occurrences.bound.map (·.date.year))).events position := by
  rw [next, hposition]

/-- What can match at all is never reported on, from whatever position. -/
theorem events_next_of_satisfiable (hdomains : occurrences.matcher.WithinDomains)
    (h : occurrences.matcher.Satisfiable) : occurrences.next.events = [] := by
  cases hposition : occurrences.position with
  | none => rw [next, hposition]
  | some position =>
    rw [events_next hposition]
    apply Outcome.events_eq_nil
    rw [ne_eq, Matcher.search_eq_pastHorizon_iff hdomains]
    intro hparts
    exact hparts.2.1 h.date

theorem events_calls_of_satisfiable (hdomains : occurrences.matcher.WithinDomains)
    (h : occurrences.matcher.Satisfiable) (count : Nat) :
    (occurrences.calls count).events = [] := by
  induction count generalizing occurrences with
  | zero => rfl
  | succ count ih =>
    have hsame := (next_spec hdomains).2.2
    rw [calls_succ, events_next_of_satisfiable hdomains h]
    apply ih
    · rw [hsame]
      exact hdomains
    · rw [hsame]
      exact h

/-- After the end nothing is searched. -/
theorem calls_finished (count : Nat) :
    occurrences.finished.calls count = ⟨List.replicate count none, []⟩ := by
  induction count with
  | zero => rfl
  | succ count ih =>
    have hnext : occurrences.finished.next = ⟨(none, occurrences.finished), []⟩ := rfl
    rw [calls_succ, hnext, ih]
    rfl

/-- What cannot match ends with the first call. -/
theorem result_next_of_not_satisfiable (hdomains : occurrences.matcher.WithinDomains)
    (h : ¬ occurrences.matcher.Satisfiable) :
    occurrences.next.result = (none, occurrences.finished) := by
  cases hposition : occurrences.position with
  | none => rw [next, hposition, finished_eq_self hposition]
  | some position =>
    rw [result_next hposition, Matcher.firstAtOrAfter?_of_not_satisfiable hdomains h]

/-- Where nothing can match, no call answers, and only the first one searches. -/
theorem calls_of_not_satisfiable (hdomains : occurrences.matcher.WithinDomains)
    (h : ¬ occurrences.matcher.Satisfiable) (count : Nat) :
    occurrences.calls (count + 1) =
      ⟨List.replicate (count + 1) none, occurrences.next.events⟩ := by
  rw [calls_succ, result_next_of_not_satisfiable hdomains h, calls_finished,
    List.replicate_succ, List.append_nil]

end Occurrences

/-! ### A whole sequence of calls -/

namespace Expression

/-- An expression selects something in every field but no date, and from its start on the whole
horizon lies in the calendar and before the year of the bound. -/
structure ReachesHorizon (expression : Expression) (start : DateTime) (bound : Option DateTime) :
    Prop where
  fields : ∀ field, ((Matcher.ofExpression expression).get field).isEmpty = false
  no_date : ¬ (Matcher.ofExpression expression).SelectsDate
  within_calendar : start.date.year ≤ 9599
  within_bound : ∀ stop ∈ bound, start.date.year + 400 ≤ stop.date.year

variable {expression : Expression} {start : DateTime} {bound : Option DateTime}

/-- The first call reports exactly where the horizon is reached. -/
theorem reachesHorizon_iff_search :
    expression.ReachesHorizon start bound ↔
      (Matcher.ofExpression expression).search start.truncate (bound.map (·.date.year)) =
        .pastHorizon := by
  rw [Matcher.search_eq_pastHorizon_iff (Matcher.withinDomains_ofExpression expression)]
  have hbound : (∀ last ∈ bound.map (·.date.year), start.truncate.date.year + 400 ≤ last) ↔
      ∀ stop ∈ bound, start.date.year + 400 ≤ stop.date.year := by
    cases bound <;> simp [DateTime.truncate]
  rw [Matcher.hasEmptyField_eq_false_iff, hbound]
  exact ⟨fun h ↦ ⟨h.fields, h.no_date, h.within_calendar, h.within_bound⟩,
    fun h ↦ ⟨h.1, h.2.1, h.2.2.1, h.2.2.2⟩⟩

/-- Over any number of calls the report about the horizon is made once, by the first call and
about the minute of the start, where the horizon is reached, and never otherwise. Where it is
made, no date-time of the calendar matches, and no call answers with a match. -/
theorem events_calls_occurrences (expression : Expression) (start : DateTime)
    (bound : Option DateTime) :
    (expression.ReachesHorizon start bound →
      ∀ count, ((expression.occurrences start bound).calls (count + 1)).events =
        [.nothingWithinHorizon start.truncate]) ∧
    (¬ expression.ReachesHorizon start bound →
      ∀ count, ((expression.occurrences start bound).calls count).events = []) ∧
    (expression.ReachesHorizon start bound →
      (∀ moment, expression.matchesAt moment = false) ∧
        ∀ count, ∀ answer ∈ ((expression.occurrences start bound).calls count).result,
          answer = none) := by
  have hdomains := withinDomains_occurrences expression start bound
  have hfirst : (expression.occurrences start bound).next.events =
      ((Matcher.ofExpression expression).search start.truncate
        (bound.map (·.date.year))).events start.truncate := Occurrences.events_next rfl
  have hfails (hreaches : expression.ReachesHorizon start bound) :
      ¬ (Matcher.ofExpression expression).Satisfiable := fun h ↦ hreaches.no_date h.date
  refine ⟨fun hreaches count ↦ ?_, fun hnot count ↦ ?_,
    fun hreaches ↦ ⟨fun moment ↦ ?_, fun count answer hanswer ↦ ?_⟩⟩
  · rw [Occurrences.calls_of_not_satisfiable hdomains (hfails hreaches), hfirst,
      reachesHorizon_iff_search.mp hreaches]
    rfl
  · by_cases hsatisfiable : (Matcher.ofExpression expression).Satisfiable
    · exact Occurrences.events_calls_of_satisfiable hdomains hsatisfiable count
    · cases count with
      | zero => rfl
      | succ count =>
        rw [Occurrences.calls_of_not_satisfiable hdomains hsatisfiable, hfirst]
        exact Outcome.events_eq_nil (reachesHorizon_iff_search.not.mp hnot) start.truncate
  · apply Bool.eq_false_of_not_eq_true
    intro hmatches
    exact hfails hreaches (Matcher.satisfiable_of_admits hmatches)
  · cases count with
    | zero => cases hanswer
    | succ count =>
      rw [Occurrences.calls_of_not_satisfiable hdomains (hfails hreaches)] at hanswer
      exact List.eq_of_mem_replicate hanswer

/-- Midnight of every 30th of February. -/
def thirtiethsOfFebruary : Expression :=
  ⟨.number 0, .number 0, .number 30, .number 2, .wildcard⟩

/-- A day that no year has is looked for through a whole horizon, and reported on once. -/
theorem events_calls_thirtiethsOfFebruary :
    thirtiethsOfFebruary.ReachesHorizon endOf9599 none ∧
      ((thirtiethsOfFebruary.occurrences endOf9599 none).calls 3).events =
        [.nothingWithinHorizon endOf9599.truncate] := by
  have hreaches : thirtiethsOfFebruary.ReachesHorizon endOf9599 none :=
    { fields := by
        intro field
        cases field <;> decide
      no_date := by
        rintro ⟨month, day, hmonth, hday, hlength⟩
        have hfebruary : month = 2 :=
          List.mem_singleton.mp ((ValueSet.contains_ofList _ _).mp hmonth).2
        have hthirtieth : day = 30 :=
          List.mem_singleton.mp ((ValueSet.contains_ofList _ _).mp hday).2
        rw [hfebruary, hthirtieth] at hlength
        exact absurd hlength (by decide)
      within_calendar := by decide
      within_bound := by
        rintro stop ⟨⟩ }
  exact ⟨hreaches, (events_calls_occurrences thirtiethsOfFebruary endOf9599 none).1 hreaches 2⟩

end Expression

end Recurrence
