import Recurrence.Proofs.AscendingLists
import Recurrence.Proofs.OccurrenceOrder

/-!
The matches of a window, and windows that meet.

The matches up to a date-time are the front of all matches from the start of the window on
(`Expression.between_append`), although the search for them knows the last year of the window
and stops for other reasons. A window that is cut at a date-time goes on with the minute after
it, whatever the seconds of the cut (`Expression.selection_next_some`), so its two parts
together list each match once.
-/

set_option autoImplicit false
set_option relaxedAutoImplicit false

namespace Recurrence.Expression

open Recurrence.Calendar Recurrence.Occurrences

section

variable (expression : Expression) (start : DateTime)

/-! ### What is selected -/

/-- Without a bound every match from the start on is selected. -/
theorem mem_selection_none {moment : CalendarMinute} :
    moment ∈ expression.selection start none ↔
      start.truncate ≤ moment ∧ expression.matchesAt moment.start = true := by
  simp [selection]

/-- A bound keeps the selected minutes that start no later than it. -/
theorem selection_some (stop : DateTime) :
    expression.selection start (some stop) =
      (expression.selection start none).filter (·.start ≤ stop) := by
  ext moment
  simp only [selection, Set.Finite.mem_toFinset, Set.mem_ofPred_eq, Finset.mem_filter,
    Option.mem_some_iff, forall_eq', Option.not_mem_none, false_imp_iff, implies_true, true_and]
  tauto

/-- Nothing starts later than a date-time in the last minute of the calendar. -/
theorem start_le_of_next?_eq_none {middle : DateTime} (hnext : middle.truncate.next? = none)
    (moment : CalendarMinute) : moment.start ≤ middle := by
  rw [DateTime.start_le_iff, CalendarMinute.eq_last_of_next? hnext]
  exact CalendarMinute.le_last moment

/-- From the minute after a cut on, the minutes are selected that start later than the cut. -/
theorem selection_next_some {middle : DateTime} {next : CalendarMinute}
    (hstart : start.truncate ≤ middle.truncate) (hnext : middle.truncate.next? = some next)
    (stop : DateTime) :
    expression.selection next.start (some stop) =
      (expression.selection start (some stop)).filter fun moment ↦ ¬ moment.start ≤ middle := by
  ext moment
  have hafter : next ≤ moment ↔ middle.truncate < moment := by
    rw [CalendarMinute.lt_iff_next?_le, hnext]
    simp
  simp only [selection_some, Finset.mem_filter, mem_selection_none, DateTime.truncate_start,
    DateTime.start_le_iff, not_le, hafter]
  constructor
  · intro hparts
    obtain ⟨⟨hlater, hmatches⟩, hstop⟩ := hparts
    exact ⟨⟨⟨hstart.trans hlater.le, hmatches⟩, hstop⟩, hlater⟩
  · intro hparts
    obtain ⟨⟨⟨-, hmatches⟩, hstop⟩, hlater⟩ := hparts
    exact ⟨⟨hlater, hmatches⟩, hstop⟩

/-! ### What is listed -/

/-- All matches of a sequence are those that the expression selects. -/
theorem result_toList_occurrences (bound : Option DateTime) :
    (expression.occurrences start bound).toList.result =
      (expression.selection start bound).sort (· ≤ ·) := by
  rw [Occurrences.result_toList (withinDomains_occurrences expression start bound),
    ahead_occurrences]

/-- The matches of a window are those selected up to its end. -/
theorem result_between (stop : DateTime) :
    (expression.between start stop).result =
      ((expression.selection start none).sort (· ≤ ·)).filter (·.start ≤ stop) := by
  rw [between, result_toList_occurrences, selection_some, filter_sort]
  simp only [decide_eq_true_eq]

/-- What comes before a minute that starts no later than a date-time does so too. -/
theorem start_le_of_lt (stop : DateTime) (earlier later : CalendarMinute) (hlt : earlier < later)
    (hlater : decide (later.start ≤ stop) = true) : decide (earlier.start ≤ stop) = true := by
  rw [decide_eq_true_eq, DateTime.start_le_iff] at hlater ⊢
  exact hlt.le.trans hlater

/-- Up to a cut, the matches of a window are those of the window that ends there. -/
theorem filter_result_between {middle stop : DateTime} (h : middle ≤ stop) :
    (expression.between start stop).result.filter (·.start ≤ middle) =
      (expression.between start middle).result := by
  rw [result_between, result_between, List.filter_filter]
  apply List.filter_congr
  intro moment _
  rw [← Bool.decide_and, decide_eq_decide]
  constructor
  · intro hparts
    exact hparts.1
  · intro hmiddle
    exact ⟨hmiddle, Int.le_trans hmiddle h⟩

/-- Behind a cut, the matches of a window are those from the minute after the cut on. -/
theorem filter_not_result_between {middle : DateTime} (h : start.truncate ≤ middle.truncate)
    (stop : DateTime) :
    (expression.between start stop).result.filter (fun moment ↦ !decide (moment.start ≤ middle)) =
      match middle.truncate.next? with
      | none => []
      | some next => (expression.between next.start stop).result := by
  cases hnext : middle.truncate.next? with
  | none =>
    rw [List.filter_eq_nil_iff]
    intro moment _
    simp [start_le_of_next?_eq_none hnext moment]
  | some next =>
    dsimp only
    rw [between, between, result_toList_occurrences, result_toList_occurrences, filter_sort,
      selection_next_some expression start h hnext]
    simp

end

/-- A window that is cut at a date-time within it lists the matches up to the cut and then those
from the minute after the cut on; in the last minute of the calendar nothing is left behind the
cut. And the matches of a window are the longest front part of all matches from its start on in
which none starts later than its end: the one at a place is what the call after so many others
answers on the sequence without an end, as long as that starts no later than the end. -/
theorem between_append (expression : Expression) (start stop : DateTime) :
    (∀ middle, start.truncate.start ≤ middle → middle ≤ stop →
      (expression.between start stop).result =
        (expression.between start middle).result ++
          match middle.truncate.next? with
          | none => []
          | some next => (expression.between next.start stop).result) ∧
    (expression.between start stop).result =
      (expression.occurrences start none).toList.result.takeWhile (·.start ≤ stop) ∧
    ∀ count, (expression.between start stop).result[count]? =
      ((expression.occurrences start none).call count).filter (·.start ≤ stop) := by
  have hfront : (expression.between start stop).result =
      (expression.occurrences start none).toList.result.takeWhile (·.start ≤ stop) := by
    rw [result_between, result_toList_occurrences, takeWhile_eq_filter
      (Finset.sortedLT_sort _).pairwise (start_le_of_lt stop)]
  refine ⟨?_, hfront, fun count ↦ ?_⟩
  · intro middle hstart hmiddle
    rw [DateTime.start_le_iff] at hstart
    have hascending : (expression.between start stop).result.Pairwise (· < ·) := by
      rw [result_between]
      exact (Finset.sortedLT_sort _).pairwise.filter _
    rw [← filter_not_result_between expression start hstart stop,
      ← filter_result_between expression start hmiddle,
      filter_append_filter_not hascending (start_le_of_lt middle)]
  · rw [hfront, result_toList_occurrences,
      Occurrences.call_eq_getElem? (withinDomains_occurrences expression start none),
      ahead_occurrences, getElem?_takeWhile (Finset.sortedLT_sort _).pairwise (start_le_of_lt stop)]

end Recurrence.Expression
