import Mathlib.Data.Finset.Sort
import Recurrence.Proofs.FirstMatch

/-!
Parts of ascending lists.

A finite set is listed in ascending order by `Finset.sort`. What is left behind one of its
elements consists of the greater elements (`drop_sort_eq_sort`), so the element that follows
another is the least of those (`isLeastOrNone_getElem?_succ`). Keeping some elements gives the
list of the smaller set (`filter_sort`). If with an element all smaller ones are kept, they stand
at the front, and all others behind them (`takeWhile_eq_filter`, `getElem?_takeWhile`,
`filter_append_filter_not`).
-/

set_option autoImplicit false
set_option relaxedAutoImplicit false

namespace Recurrence

open Recurrence.Calendar Recurrence.Occurrences

section

variable {α : Type} [LinearOrder α] {whole rest : Finset α} {count : Nat} {last : α}

/-! ### Behind an element -/

/-- No element of an ascending list is greater than the last one. -/
theorem le_getLast {values : List α} (hvalues : values.Pairwise (· < ·))
    (hlast : values.getLast? = some last) : ∀ value ∈ values, value ≤ last := by
  obtain ⟨front, rfl⟩ := List.getLast?_eq_some_iff.mp hlast
  intro value hvalue
  rcases List.mem_append.mp hvalue with hfront | hsame
  · exact ((List.pairwise_append.mp hvalues).2.2 value hfront last (by simp)).le
  · exact (List.mem_singleton.mp hsame).le

/-- Behind the last element of a front part stand the elements that are greater. -/
theorem drop_sort_eq_sort (hlast : ((whole.sort (· ≤ ·)).take count).getLast? = some last)
    (hrest : ∀ value, value ∈ rest ↔ value ∈ whole ∧ last < value) :
    (whole.sort (· ≤ ·)).drop count = rest.sort (· ≤ ·) := by
  have hsorted := whole.sortedLT_sort.pairwise
  have hsplit := List.take_append_drop count (whole.sort (· ≤ ·))
  rw [← hsplit, List.pairwise_append] at hsorted
  obtain ⟨hfront, hback, hcross⟩ := hsorted
  have hwhole (value : α) : value ∈ whole ↔ value ∈ (whole.sort (· ≤ ·)).take count ∨
      value ∈ (whole.sort (· ≤ ·)).drop count := by
    rw [← List.mem_append, hsplit, Finset.mem_sort]
  have hset : rest = ((whole.sort (· ≤ ·)).drop count).toFinset := by
    ext value
    rw [hrest, hwhole, List.mem_toFinset]
    constructor
    · intro hparts
      obtain ⟨hin | hin, hlt⟩ := hparts
      · exact absurd hlt (not_lt.mpr (le_getLast hfront hlast value hin))
      · exact hin
    · intro hin
      exact ⟨Or.inr hin, hcross last (List.mem_of_getLast? hlast) value hin⟩
  rw [hset, (List.toFinset_sort (· ≤ ·) (hback.imp ne_of_lt)).mpr (hback.imp le_of_lt)]

/-! ### Some of the elements -/

/-- Some elements of an ascending list are the list of the smaller set. -/
theorem filter_sort (whole : Finset α) (keep : α → Bool) :
    (whole.sort (· ≤ ·)).filter keep = (whole.filter (keep · = true)).sort (· ≤ ·) := by
  refine (whole.sortedLT_sort.pairwise.filter keep).eq_of_mem_iff
    (Finset.sortedLT_sort _).pairwise fun value ↦ ?_
  rw [List.mem_filter, Finset.mem_sort, Finset.mem_sort, Finset.mem_filter]

variable {values : List α} {keep : α → Bool}

/-- If with an element all smaller ones are kept, the kept ones are the front of the list. -/
theorem takeWhile_eq_filter (hvalues : values.Pairwise (· < ·))
    (hkeep : ∀ earlier later, earlier < later → keep later = true → keep earlier = true) :
    values.takeWhile keep = values.filter keep := by
  induction values with
  | nil => rfl
  | cons first others ih =>
    rw [List.pairwise_cons] at hvalues
    by_cases hfirst : keep first = true
    · rw [List.takeWhile_cons_of_pos hfirst, List.filter_cons_of_pos hfirst, ih hvalues.2]
    · rw [List.takeWhile_cons_of_neg hfirst, List.filter_cons_of_neg hfirst, eq_comm,
        List.filter_eq_nil_iff]
      intro other hother hlater
      exact hfirst (hkeep first other (hvalues.1 other hother) hlater)

/-- If with an element all smaller ones are kept, every kept one keeps its place. -/
theorem getElem?_takeWhile (hvalues : values.Pairwise (· < ·))
    (hkeep : ∀ earlier later, earlier < later → keep later = true → keep earlier = true)
    (place : Nat) : (values.takeWhile keep)[place]? = values[place]?.filter keep := by
  induction values generalizing place with
  | nil => rfl
  | cons first others ih =>
    rw [List.pairwise_cons] at hvalues
    by_cases hfirst : keep first = true
    · rw [List.takeWhile_cons_of_pos hfirst]
      cases place with
      | zero =>
        rw [List.getElem?_cons_zero, List.getElem?_cons_zero, Option.filter_some_pos hfirst]
      | succ place => simpa using ih hvalues.2 place
    · rw [List.takeWhile_cons_of_neg hfirst, List.getElem?_nil, eq_comm, Option.filter_eq_none_iff]
      intro other hother hlater
      rcases List.mem_cons.mp (List.mem_of_getElem? hother) with rfl | hmem
      · exact hfirst hlater
      · exact hfirst (hkeep first other (hvalues.1 other hmem) hlater)

/-- If with an element all smaller ones are kept, the others are the rest of the list. -/
theorem dropWhile_eq_filter (hvalues : values.Pairwise (· < ·))
    (hkeep : ∀ earlier later, earlier < later → keep later = true → keep earlier = true) :
    values.dropWhile keep = values.filter (!keep ·) := by
  induction values with
  | nil => rfl
  | cons first others ih =>
    rw [List.pairwise_cons] at hvalues
    by_cases hfirst : keep first = true
    · rw [List.dropWhile_cons_of_pos hfirst, List.filter_cons_of_neg (by simp [hfirst]),
        ih hvalues.2]
    · rw [List.dropWhile_cons_of_neg hfirst, eq_comm, List.filter_eq_self]
      intro other hother
      rcases List.mem_cons.mp hother with rfl | hlater
      · simp [hfirst]
      · have hnot : ¬ keep other = true :=
          fun hkept ↦ hfirst (hkeep first other (hvalues.1 other hlater) hkept)
        simp [hnot]

/-- If with an element all smaller ones are kept, the kept ones and then the others are the
list. -/
theorem filter_append_filter_not (hvalues : values.Pairwise (· < ·))
    (hkeep : ∀ earlier later, earlier < later → keep later = true → keep earlier = true) :
    values.filter keep ++ values.filter (!keep ·) = values := by
  rw [← takeWhile_eq_filter hvalues hkeep, ← dropWhile_eq_filter hvalues hkeep,
    List.takeWhile_append_dropWhile]

end

/-! ### The least element -/

section

variable {candidates : Finset CalendarMinute}

/-- The first element of an ascending list is the least one. -/
theorem isLeastOrNone_head? (candidates : Finset CalendarMinute) :
    IsLeastOrNone candidates (candidates.sort (· ≤ ·)).head? := by
  have hsorted := candidates.pairwise_sort (· ≤ ·)
  have hmem (moment : CalendarMinute) :
      moment ∈ candidates ↔ moment ∈ candidates.sort (· ≤ ·) := (Finset.mem_sort _).symm
  cases hsort : candidates.sort (· ≤ ·) with
  | nil =>
    change (candidates : Set CalendarMinute) = ∅
    ext moment
    simp [hmem, hsort]
  | cons least others =>
    rw [hsort, List.pairwise_cons] at hsorted
    constructor
    · rw [Finset.mem_coe, hmem, hsort]
      exact List.mem_cons_self
    · intro moment hin
      rw [Finset.mem_coe, hmem, hsort] at hin
      rcases List.mem_cons.mp hin with rfl | hlater
      · exact le_refl moment
      · exact hsorted.1 moment hlater

/-- After an element comes the least of the greater ones, if there is one. -/
theorem isLeastOrNone_getElem?_succ {count : Nat} {moment : CalendarMinute}
    (h : (candidates.sort (· ≤ ·))[count]? = some moment) :
    IsLeastOrNone {later | later ∈ candidates ∧ moment < later}
      (candidates.sort (· ≤ ·))[count + 1]? := by
  have hlast : ((candidates.sort (· ≤ ·)).take (count + 1)).getLast? = some moment := by
    rw [List.getLast?_take, if_neg (Nat.succ_ne_zero count), Nat.add_sub_cancel, h]
    rfl
  have hdrop : (candidates.sort (· ≤ ·)).drop (count + 1) =
      (candidates.filter (moment < ·)).sort (· ≤ ·) := drop_sort_eq_sort hlast (by simp)
  have hleast := isLeastOrNone_head? (candidates.filter (moment < ·))
  rw [← hdrop, List.head?_drop, Finset.coe_filter] at hleast
  exact hleast

/-- Each element is followed by the least of the greater ones. -/
theorem isChain_sort (candidates : Finset CalendarMinute) :
    (candidates.sort (· ≤ ·)).IsChain fun earlier later ↦
      earlier ∈ candidates ∧ IsLeast {moment | moment ∈ candidates ∧ earlier < moment} later := by
  rw [List.isChain_iff_getElem]
  intro place hplace
  have hnext := isLeastOrNone_getElem?_succ (List.getElem?_eq_getElem (Nat.lt_of_succ_lt hplace))
  rw [List.getElem?_eq_getElem hplace] at hnext
  exact ⟨(Finset.mem_sort _).mp (List.getElem_mem _), hnext⟩

end

end Recurrence
