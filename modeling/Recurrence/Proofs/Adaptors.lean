import Recurrence.Proofs.OccurrenceOrder

/-!
Matches that are asked for several at a time.

What is answered, and what is left afterwards, is said about the list of the matches that are
still to come: the match after so many others stands at that place (`nth_spec`), the matches
before a date-time are the front of the list, and the first one that is not before it is lost
(`takeBefore_spec`), and a stride has the matches whose places are multiples of its distance
(`result_stride`).
-/

set_option autoImplicit false
set_option relaxedAutoImplicit false

namespace Recurrence.Occurrences

open Recurrence.Calendar

variable {occurrences : Occurrences}

/-- A page of so many matches leaves the matches behind them, and it ends exactly where there are
fewer. -/
theorem rest_take (hdomains : occurrences.matcher.WithinDomains) (count : Nat) :
    (occurrences.take count).result.rest.ahead = occurrences.ahead.drop count ∧
      (occurrences.take count).result.rest.matcher = occurrences.matcher ∧
        ((occurrences.take count).result.ended = true ↔ occurrences.ahead.length < count) := by
  induction count generalizing occurrences with
  | zero => simp [take, collectWhile]
  | succ count ih =>
    rw [take, collectWhile_succ]
    rcases next_cases hdomains with
      ⟨rest, hresult, hnil, htail, hmatcher⟩ | ⟨first, rest, hresult, hcons, hmatcher, hrest⟩
    · rw [hresult, hnil]
      simpa using ⟨htail, hmatcher⟩
    · rw [hresult, hcons, List.drop_succ_cons, List.length_cons, Nat.succ_lt_succ_iff, ← hmatcher]
      exact ih hrest

/-- The match after so many others is the one at that place, and what is left stands behind it. -/
theorem nth_spec (hdomains : occurrences.matcher.WithinDomains) (count : Nat) :
    (occurrences.nth count).result.1 = occurrences.ahead[count]? ∧
      (occurrences.nth count).result.2.ahead = occurrences.ahead.drop (count + 1) ∧
        (occurrences.nth count).result.2.matcher = occurrences.matcher := by
  obtain ⟨hdrop, hmatcher, hended⟩ := rest_take hdomains count
  rw [nth, Logged.result_bind]
  split
  · rename_i hpage
    have hshort := hended.mp hpage
    rw [List.getElem?_eq_none hshort.le, List.drop_eq_nil_of_le (hshort.le.trans (Nat.le_succ _))]
    rw [List.drop_eq_nil_of_le hshort.le] at hdrop
    exact ⟨rfl, hdrop, hmatcher⟩
  · have hrest : (occurrences.take count).result.rest.matcher.WithinDomains := by
      rw [hmatcher]
      exact hdomains
    obtain ⟨hhead, htail, hsame⟩ := next_spec hrest
    rw [hdrop, List.head?_drop] at hhead
    rw [hdrop, List.tail_drop] at htail
    exact ⟨hhead, htail, hsame.trans hmatcher⟩

/-- Where there are fewer matches than are asked for, those behind the first one that is not kept
are left. -/
theorem rest_collectWhile (hdomains : occurrences.matcher.WithinDomains)
    (keep : CalendarMinute → Bool) {count : Nat} (hcount : occurrences.ahead.length < count) :
    (collectWhile keep [] [] count occurrences).result.rest.ahead =
      (occurrences.ahead.dropWhile keep).tail := by
  induction count generalizing occurrences with
  | zero => exact absurd hcount (Nat.not_lt_zero _)
  | succ count ih =>
    rw [collectWhile_succ]
    rcases next_cases hdomains with
      ⟨rest, hresult, hnil, htail, -⟩ | ⟨first, rest, hresult, hcons, -, hrest⟩
    · rw [hresult, hnil]
      exact htail
    · rw [hcons, List.length_cons, Nat.succ_lt_succ_iff] at hcount
      rw [hresult, hcons]
      dsimp only
      split
      · rename_i hkeep
        rw [List.dropWhile_cons_of_pos hkeep]
        exact ih hrest hcount
      · rename_i hkeep
        rw [List.dropWhile_cons_of_neg hkeep, List.tail_cons]

/-- The matches before a date-time are the front of those to come, and the first one that is not
before it is left out of what comes afterwards. -/
theorem takeBefore_spec (hdomains : occurrences.matcher.WithinDomains) (limit : DateTime) :
    (occurrences.takeBefore limit).result.items =
        occurrences.ahead.takeWhile (·.start < limit) ∧
      (occurrences.takeBefore limit).result.rest.ahead =
        (occurrences.ahead.dropWhile (·.start < limit)).tail := by
  have hcount : occurrences.ahead.length < occurrences.minutesLeft + 1 :=
    Nat.lt_succ_of_le length_ahead_le
  rw [takeBefore, items_collectWhile hdomains, rest_collectWhile hdomains _ hcount,
    List.take_of_length_le hcount.le]
  exact ⟨rfl, rfl⟩

/-! ### Strides -/

/-- Collecting at a distance adds the matches at the places behind each other at that distance. -/
theorem result_collectStride (hdomains : occurrences.matcher.WithinDomains) {distance : Nat}
    (hdistance : 0 < distance) (items : List CalendarMinute) (count : Nat) :
    (collectStride distance items count occurrences).result.1 = items.reverse ++
      (List.range count).filterMap fun turn ↦
        occurrences.ahead[distance - 1 + turn * distance]? := by
  induction count generalizing items occurrences with
  | zero => simp [collectStride]
  | succ count ih =>
    obtain ⟨hfound, hrest, hmatcher⟩ := nth_spec hdomains (distance - 1)
    obtain ⟨⟨found, rest⟩, hresult⟩ :
        ∃ result, (occurrences.nth (distance - 1)).result = result := ⟨_, rfl⟩
    rw [collectStride, Logged.result_bind]
    rw [hresult] at hfound hrest hmatcher ⊢
    rw [List.range_succ_eq_map, List.filterMap_cons, List.filterMap_map, Nat.zero_mul,
      Nat.add_zero, ← hfound]
    cases found with
    | none =>
      have hlength : occurrences.ahead.length ≤ distance - 1 :=
        List.getElem?_eq_none_iff.mp hfound.symm
      have hnone (turn : Nat) :
          occurrences.ahead[distance - 1 + (turn + 1) * distance]? = none :=
        List.getElem?_eq_none (hlength.trans (Nat.le_add_right _ _))
      simp [hnone]
    | some moment =>
      have hdomainsRest : rest.matcher.WithinDomains := by
        rw [hmatcher]
        exact hdomains
      have hplace (turn : Nat) : rest.ahead[distance - 1 + turn * distance]? =
          occurrences.ahead[distance - 1 + (turn + 1) * distance]? := by
        rw [hrest, List.getElem?_drop, Nat.succ_mul]
        congr 1
        omega
      rw [ih hdomainsRest]
      simp [hplace]

/-- A stride has the matches whose places are multiples of its distance, up to so many. -/
theorem result_stride (hdomains : occurrences.matcher.WithinDomains) {distance : Nat}
    (hdistance : 0 < distance) (count : Nat) :
    (occurrences.stride distance count).result.1 =
      (List.range count).filterMap fun turn ↦ occurrences.ahead[turn * distance]? := by
  cases count with
  | zero => rfl
  | succ count =>
    rw [stride, Logged.result_bind, List.range_succ_eq_map, List.filterMap_cons,
      List.filterMap_map, Nat.zero_mul]
    rcases next_cases hdomains with
      ⟨rest, hresult, hnil, -⟩ | ⟨moment, rest, hresult, hcons, -, hrest⟩
    · rw [hresult, hnil]
      simp
    · have hplace (turn : Nat) : rest.ahead[distance - 1 + turn * distance]? =
          occurrences.ahead[(turn + 1) * distance]? := by
        have hindex : (turn + 1) * distance = distance - 1 + turn * distance + 1 := by
          rw [Nat.succ_mul]
          omega
        rw [hcons, hindex, List.getElem?_cons_succ]
      have hfirst : occurrences.ahead[0]? = some moment := by
        rw [hcons, List.getElem?_cons_zero]
      rw [hresult, hfirst]
      dsimp only
      rw [result_collectStride hrest hdistance]
      simp [hplace]

end Recurrence.Occurrences
