import Recurrence.Proofs.AscendingLists
import Recurrence.Proofs.OccurrenceOrder

/-!
The matches after a date-time, and pages of them.

Asking from the minute after a date-time on lists exactly the matching minutes that start
later than it, whatever its seconds (`Expression.selection_next`); in the last minute of the
calendar there are none. A page is a front part of that list
(`Expression.result_nextAfterList`). What is left of an ascending list behind one of its
elements consists of the greater elements (`drop_sort_eq_sort`), so the page that is asked
for from the last match of another page continues it, although its search starts anew.
-/

set_option autoImplicit false
set_option relaxedAutoImplicit false

namespace Recurrence

open Recurrence.Calendar Recurrence.Occurrences

/-! ### After a date-time -/

namespace Calendar

/-- A minute starts after a date-time exactly when it comes after the minute of the
date-time. -/
theorem DateTime.lt_start_iff (moment : DateTime) (later : CalendarMinute) :
    moment < later.start ↔ moment.truncate < later := by
  rw [← not_le, ← start_le_iff, lt_def, le_def, Int.not_le]

end Calendar

namespace Expression

section

variable (expression : Expression) (moment : DateTime)

/-- The minutes that match an expression and start after a date-time. -/
noncomputable def laterMatches : Finset CalendarMinute :=
  (Set.toFinite {later : CalendarMinute | moment < later.start ∧
    expression.matchesAt later.start = true}).toFinset

theorem mem_laterMatches {later : CalendarMinute} :
    later ∈ expression.laterMatches moment ↔
      moment < later.start ∧ expression.matchesAt later.start = true := by
  rw [laterMatches, Set.Finite.mem_toFinset, Set.mem_ofPred_eq]

/-- From the minute after a date-time on, exactly the later matches are selected. -/
theorem selection_next {next : CalendarMinute} (hnext : moment.truncate.next? = some next) :
    expression.selection next.start none = expression.laterMatches moment := by
  ext later
  rw [mem_laterMatches, DateTime.lt_start_iff, CalendarMinute.lt_iff_next?_le, hnext]
  simp [selection]

/-- Nothing comes after the last minute of the calendar. -/
theorem laterMatches_of_next?_eq_none (hnext : moment.truncate.next? = none) :
    expression.laterMatches moment = ∅ := by
  rw [Finset.eq_empty_iff_forall_notMem]
  intro later hmem
  have hlater := ((mem_laterMatches expression moment).mp hmem).1
  rw [DateTime.lt_start_iff, CalendarMinute.eq_last_of_next? hnext] at hlater
  exact absurd hlater (not_lt.mpr (CalendarMinute.le_last later))

/-- So many matches after a date-time are the first ones in ascending order. -/
theorem result_nextAfterList (count : Nat) :
    (expression.nextAfterList moment count).result =
      ((expression.laterMatches moment).sort (· ≤ ·)).take count := by
  unfold nextAfterList
  cases hnext : moment.truncate.next? with
  | none =>
    rw [laterMatches_of_next?_eq_none expression moment hnext, Finset.sort_empty, List.take_nil]
    rfl
  | some next =>
    rw [← selection_next expression moment hnext, ← ahead_occurrences,
      ← Occurrences.items_take (withinDomains_occurrences expression next.start none)]
    rfl

/-- The first match after a date-time is the least of all. -/
theorem result_nextAfter :
    (expression.nextAfter moment).result =
      ((expression.laterMatches moment).sort (· ≤ ·)).head? := by
  unfold nextAfter
  cases hnext : moment.truncate.next? with
  | none =>
    rw [laterMatches_of_next?_eq_none expression moment hnext, Finset.sort_empty]
    rfl
  | some next =>
    rw [← selection_next expression moment hnext, ← ahead_occurrences,
      ← (Occurrences.next_spec (withinDomains_occurrences expression next.start none)).1]
    rfl

/-- The first match after a date-time is the least one, and there is none only where nothing
matches any more. -/
theorem isLeastOrNone_nextAfter :
    IsLeastOrNone (expression.laterMatches moment) (expression.nextAfter moment).result := by
  rw [result_nextAfter]
  exact isLeastOrNone_head? _

/-- What is left behind a page are the matches after its last one. -/
theorem drop_sort_laterMatches {count : Nat} {last : CalendarMinute}
    (hlast : (expression.nextAfterList moment count).result.getLast? = some last) :
    ((expression.laterMatches moment).sort (· ≤ ·)).drop count =
      (expression.laterMatches last.start).sort (· ≤ ·) := by
  rw [result_nextAfterList] at hlast
  have hmem := List.mem_of_mem_take (List.mem_of_getLast? hlast)
  rw [Finset.mem_sort, mem_laterMatches, DateTime.lt_start_iff] at hmem
  apply drop_sort_eq_sort hlast
  intro later
  rw [mem_laterMatches, mem_laterMatches, DateTime.lt_start_iff, DateTime.lt_start_iff,
    DateTime.truncate_start]
  constructor
  · intro hparts
    exact ⟨⟨hmem.1.trans hparts.1, hparts.2⟩, hparts.1⟩
  · intro hparts
    exact ⟨hparts.2, hparts.1.2⟩

end

/-- So many matches after a date-time are the first of all matching minutes that start after
it, in ascending order, and the first match is the first of them. A page goes on with the
matches after its last one, and a page that is not full is the last. -/
theorem nextAfterList_pages (expression : Expression) (moment : DateTime) :
    (∀ count, (expression.nextAfterList moment count).result =
      ((expression.laterMatches moment).sort (· ≤ ·)).take count) ∧
    (∀ count, (expression.nextAfter moment).result =
      (expression.nextAfterList moment (count + 1)).result.head?) ∧
    (∀ count more last,
      (expression.nextAfterList moment count).result.getLast? = some last →
        (expression.nextAfterList moment (count + more)).result =
          (expression.nextAfterList moment count).result ++
            (expression.nextAfterList last.start more).result) ∧
    ∀ count more, (expression.nextAfterList moment count).result.length < count →
      (expression.nextAfterList moment (count + more)).result =
        (expression.nextAfterList moment count).result := by
  refine ⟨expression.result_nextAfterList moment, fun count ↦ ?_,
    fun count more last hlast ↦ ?_, fun count more hshort ↦ ?_⟩
  · rw [result_nextAfter, result_nextAfterList, List.head?_take]
    simp
  · rw [result_nextAfterList expression moment (count + more), List.take_add,
      drop_sort_laterMatches expression moment hlast, ← result_nextAfterList,
      ← result_nextAfterList]
  · rw [result_nextAfterList, List.length_take] at hshort
    have hall : ((expression.laterMatches moment).sort (· ≤ ·)).length ≤ count := by omega
    rw [result_nextAfterList, result_nextAfterList, List.take_of_length_le hall,
      List.take_of_length_le (hall.trans (Nat.le_add_right count more))]

end Expression

end Recurrence
