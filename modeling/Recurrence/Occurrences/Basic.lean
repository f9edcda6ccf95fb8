import Recurrence.Occurrences.Search

/-!
The minutes that an expression matches, in ascending order from a start on and up to a
bound if there is one, one at a time. What has ended stays ended.
-/

set_option autoImplicit false
set_option relaxedAutoImplicit false

namespace Recurrence

open Recurrence.Calendar Recurrence.Occurrences

/-- The matches of an expression that are still to come: those from a position on, none
if there is no position, and none that start after the bound. -/
structure Occurrences where
  matcher : Matcher
  position : Option CalendarMinute
  bound : Option DateTime

namespace Occurrences

/-- The matches from the minute of a start on. -/
def ofExpression (expression : Expression) (start : DateTime) (bound : Option DateTime) :
    Occurrences :=
  ⟨Matcher.ofExpression expression, some start.truncate, bound⟩

/-- A minute starts no later than the bound. -/
def withinBound (occurrences : Occurrences) (moment : CalendarMinute) : Bool :=
  match occurrences.bound with
  | none => true
  | some bound => moment.start ≤ bound

/-- The matches without any that are still to come. -/
def finished (occurrences : Occurrences) : Occurrences :=
  { occurrences with position := none }

/-- The next match, if there is one, and the matches after it. -/
def next (occurrences : Occurrences) : Logged (Option CalendarMinute × Occurrences) :=
  match occurrences.position with
  | none => ⟨(none, occurrences), []⟩
  | some start =>
    let outcome := occurrences.matcher.search start (occurrences.bound.map (·.date.year))
    let result :=
      match outcome.moment? with
      | none => (none, occurrences.finished)
      | some moment =>
        if occurrences.withinBound moment then
          (some moment, { occurrences with position := moment.next? })
        else
          (none, occurrences.finished)
    ⟨result, outcome.events start⟩

/-! ### Several at a time -/

/-- Some matches in order, what comes after them, and whether asking for them came to
the end. -/
structure Page where
  items : List CalendarMinute
  rest : Occurrences
  ended : Bool

/-- Adds up to so many matches to those collected so far, the latest first, and their
log entries, until one of them is not to be kept; that one is lost. -/
def collectWhile (keep : CalendarMinute → Bool) (items : List CalendarMinute)
    (events : List Event) : Nat → Occurrences → Logged Page
  | 0, occurrences => ⟨⟨items.reverse, occurrences, false⟩, events⟩
  | count + 1, occurrences =>
    let step := occurrences.next
    match step.result with
    | (none, rest) => ⟨⟨items.reverse, rest, true⟩, events ++ step.events⟩
    | (some moment, rest) =>
      if keep moment then
        collectWhile keep (moment :: items) (events ++ step.events) count rest
      else
        ⟨⟨items.reverse, rest, false⟩, events ++ step.events⟩

/-- Up to so many matches; nothing is asked for after the last of them. -/
def take (count : Nat) (occurrences : Occurrences) : Logged Page :=
  collectWhile (fun _ ↦ true) [] [] count occurrences

/-- Collecting adds to what was collected before, and to nothing else. -/
theorem collectWhile_eq (keep : CalendarMinute → Bool) (items : List CalendarMinute)
    (events : List Event) (count : Nat) (occurrences : Occurrences) :
    collectWhile keep items events count occurrences =
      let page := collectWhile keep [] [] count occurrences
      ⟨{ page.result with items := items.reverse ++ page.result.items },
        events ++ page.events⟩ := by
  induction count generalizing items events occurrences with
  | zero => simp [collectWhile]
  | succ count ih =>
    obtain ⟨⟨found, rest⟩, hresult⟩ : ∃ result, occurrences.next.result = result := ⟨_, rfl⟩
    cases found with
    | none => simp [collectWhile, hresult]
    | some moment =>
      by_cases hkeep : keep moment = true
      · simp only [collectWhile, hresult, hkeep, ↓reduceIte]
        rw [ih (moment :: items), ih [moment]]
        simp
      · simp [collectWhile, hresult, hkeep]

/-- One more match is the next one, and if it is kept, then as many as before. -/
theorem collectWhile_succ (keep : CalendarMinute → Bool) (count : Nat)
    (occurrences : Occurrences) :
    collectWhile keep [] [] (count + 1) occurrences =
      match occurrences.next.result with
      | (none, rest) => ⟨⟨[], rest, true⟩, occurrences.next.events⟩
      | (some moment, rest) =>
        if keep moment then
          let page := collectWhile keep [] [] count rest
          ⟨{ page.result with items := moment :: page.result.items },
            occurrences.next.events ++ page.events⟩
        else
          ⟨⟨[], rest, false⟩, occurrences.next.events⟩ := by
  obtain ⟨⟨found, rest⟩, hresult⟩ : ∃ result, occurrences.next.result = result := ⟨_, rfl⟩
  cases found with
  | none => simp [collectWhile, hresult]
  | some moment =>
    simp only [collectWhile, hresult, List.nil_append]
    split
    · rw [collectWhile_eq]
      simp
    · rfl

/-- The match after so many others. -/
def nth (count : Nat) (occurrences : Occurrences) :
    Logged (Option CalendarMinute × Occurrences) := do
  let page ← occurrences.take count
  if page.ended then return (none, page.rest) else page.rest.next

/-- No more matches than this are still to come: one for each minute that is left. -/
def minutesLeft (occurrences : Occurrences) : Nat :=
  match occurrences.position with
  | none => 0
  | some start => start.followers + 1

/-- All matches that are still to come. -/
def toList (occurrences : Occurrences) : Logged (List CalendarMinute) := do
  let page ← occurrences.take (occurrences.minutesLeft + 1)
  return page.items

/-- The matches before a date-time; the first one that is not before it is left out and
does not come again. -/
def takeBefore (limit : DateTime) (occurrences : Occurrences) : Logged Page :=
  collectWhile (fun moment ↦ moment.start < limit) [] [] (occurrences.minutesLeft + 1)
    occurrences

/-- Adds to the matches collected so far, the latest first, up to so many that follow
each other at a distance. -/
def collectStride (distance : Nat) (items : List CalendarMinute) :
    Nat → Occurrences → Logged (List CalendarMinute × Occurrences)
  | 0, occurrences => pure (items.reverse, occurrences)
  | count + 1, occurrences => do
    match ← occurrences.nth (distance - 1) with
    | (none, rest) => return (items.reverse, rest)
    | (some moment, rest) => collectStride distance (moment :: items) count rest

/-- The next match and those that follow it at a distance, up to so many in all. -/
def stride (distance count : Nat) (occurrences : Occurrences) :
    Logged (List CalendarMinute × Occurrences) :=
  match count with
  | 0 => pure ([], occurrences)
  | count + 1 => do
    match ← occurrences.next with
    | (none, rest) => return ([], rest)
    | (some moment, rest) => collectStride distance [moment] count rest

end Occurrences

namespace Expression

/-- The matches from the minute of a start on, up to a bound if there is one. -/
def occurrences (expression : Expression) (start : DateTime) (bound : Option DateTime) :
    Occurrences :=
  .ofExpression expression start bound

/-- All matches from the minute of a start up to an end. -/
def between (expression : Expression) (start stop : DateTime) : Logged (List CalendarMinute) :=
  (expression.occurrences start (some stop)).toList

/-- The first match after the minute of a date-time. -/
def nextAfter (expression : Expression) (moment : DateTime) : Logged (Option CalendarMinute) :=
  match moment.truncate.next? with
  | none => pure none
  | some start => Prod.fst <$> (expression.occurrences start.start none).next

/-- Up to so many matches after the minute of a date-time. -/
def nextAfterList (expression : Expression) (moment : DateTime) (count : Nat) :
    Logged (List CalendarMinute) :=
  match moment.truncate.next? with
  | none => pure []
  | some start => Occurrences.Page.items <$> (expression.occurrences start.start none).take count

end Expression

end Recurrence
