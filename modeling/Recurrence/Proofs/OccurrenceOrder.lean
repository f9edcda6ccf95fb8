import Mathlib.Data.Finset.Sort
import Mathlib.Data.List.TakeWhile
import Recurrence.Occurrences.Basic
import Recurrence.Proofs.FirstMatch

/-!
Asking for one match after another lists the matches of a window in ascending order, each
once and none left out.

The matches that are still to come form a finite set, and `Occurrences.ahead` is that set
in order. One call of `next` answers with the head of this list and leaves its tail
(`Occurrences.next_spec`). By induction the call after so many others answers with the
element at that place (`Occurrences.call_eq_getElem?`), and several matches at a time are
as many elements from the front (`Occurrences.items_take`). A scan of the window that goes
from each minute to the one after it finds the same list (`Expression.sort_selection`).
-/

set_option autoImplicit false
set_option relaxedAutoImplicit false

namespace Recurrence

open Recurrence.Calendar Recurrence.Occurrences

/-! ### A window minute by minute -/

namespace Calendar.CalendarMinute

/-- The minutes from a start on that start no later than a date-time, each of them found as
the one after the one before. -/
def scan (start : CalendarMinute) (stop : DateTime) : List CalendarMinute :=
  if start.start ≤ stop then
    match _ : start.next? with
    | none => [start]
    | some next => start :: scan next stop
  else
    []
termination_by start.followers
decreasing_by
  have hnumber := number_of_next? ‹_›
  have hlast : next.number ≤ last.number := le_last next
  simp only [followers]
  omega

/-- A scan visits the minutes of its window. -/
theorem mem_scan {start moment : CalendarMinute} {stop : DateTime} :
    moment ∈ scan start stop ↔ start ≤ moment ∧ moment.start ≤ stop := by
  fun_induction scan start stop with
  | case1 start hstart hnext =>
    have hlast := eq_last_of_next? hnext
    rw [List.mem_singleton]
    constructor
    · rintro rfl
      exact ⟨le_refl moment, hstart⟩
    · intro hparts
      obtain ⟨hle, -⟩ := hparts
      rw [hlast] at hle ⊢
      exact le_antisymm (le_last moment) hle
  | case2 start hstart next hnext ih =>
    have hafter : start < moment ↔ next ≤ moment := by
      rw [lt_iff_next?_le]
      simp [hnext]
    rw [List.mem_cons, ih, ← hafter]
    constructor
    · intro hparts
      rcases hparts with rfl | ⟨hlt, hstop⟩
      · exact ⟨le_refl moment, hstart⟩
      · exact ⟨hlt.le, hstop⟩
    · intro hparts
      obtain ⟨hle, hstop⟩ := hparts
      rcases hle.eq_or_lt with rfl | hlt
      · exact Or.inl rfl
      · exact Or.inr ⟨hlt, hstop⟩
  | case3 start hstart =>
    constructor
    · intro h
      cases h
    · intro hparts
      obtain ⟨hle, hstop⟩ := hparts
      rw [DateTime.start_le_iff] at hstart hstop
      exact absurd (hle.trans hstop) hstart

/-- A scan goes forward. -/
theorem pairwise_scan (start : CalendarMinute) (stop : DateTime) :
    (scan start stop).Pairwise (· < ·) := by
  fun_induction scan start stop with
  | case1 => exact List.pairwise_singleton _ _
  | case2 start hstart next hnext ih =>
    rw [List.pairwise_cons]
    refine ⟨fun moment hmem ↦ ?_, ih⟩
    rw [lt_iff_next?_le]
    exact ⟨next, hnext, (mem_scan.mp hmem).1⟩
  | case3 => exact List.Pairwise.nil

end Calendar.CalendarMinute

/-! ### The matches still to come -/

namespace Occurrences

variable {occurrences : Occurrences}

/-- The matches that are still to come. -/
def Pending (occurrences : Occurrences) (moment : CalendarMinute) : Prop :=
  (∃ position ∈ occurrences.position, position ≤ moment) ∧
    occurrences.matcher.admits moment = true ∧ occurrences.withinBound moment = true

/-- The matches that are still to come, in ascending order. -/
noncomputable def ahead (occurrences : Occurrences) : List CalendarMinute :=
  (Set.toFinite {moment | occurrences.Pending moment}).toFinset.sort (· ≤ ·)

theorem mem_ahead {moment : CalendarMinute} :
    moment ∈ occurrences.ahead ↔ occurrences.Pending moment := by
  simp [ahead]

theorem ahead_eq_nil_iff :
    occurrences.ahead = [] ↔ ∀ moment, ¬ occurrences.Pending moment := by
  simp only [List.eq_nil_iff_forall_not_mem, mem_ahead]

/-- Nothing is still to come after the end. -/
theorem ahead_finished : occurrences.finished.ahead = [] := by
  rw [ahead_eq_nil_iff]
  intro moment h
  obtain ⟨⟨position, hposition, -⟩, -⟩ := h
  cases hposition

/-- The least match to come stands first, and the matches after it follow. -/
theorem ahead_eq_cons {rest : Occurrences} {least : CalendarMinute}
    (hleast : occurrences.Pending least)
    (hrest : ∀ moment, rest.Pending moment ↔ occurrences.Pending moment ∧ least < moment)
    (hle : ∀ moment, occurrences.Pending moment → least ≤ moment) :
    occurrences.ahead = least :: rest.ahead := by
  have hset : (Set.toFinite {moment | occurrences.Pending moment}).toFinset =
      insert least (Set.toFinite {moment | rest.Pending moment}).toFinset := by
    ext moment
    simp only [Set.Finite.mem_toFinset, Set.mem_ofPred_eq, Finset.mem_insert, hrest]
    constructor
    · intro hmem
      rcases (hle moment hmem).eq_or_lt with heq | hlt
      · exact Or.inl heq.symm
      · exact Or.inr ⟨hmem, hlt⟩
    · intro h
      rcases h with rfl | ⟨hmem, -⟩
      · exact hleast
      · exact hmem
  rw [ahead, hset, Finset.sort_insert]
  · rfl
  · intro moment hmem
    exact ((hrest moment).mp (by simpa using hmem)).2.le
  · intro hmem
    exact lt_irrefl least ((hrest least).mp (by simpa using hmem)).2

/-! ### One call -/

theorem withinBound_iff {moment : CalendarMinute} :
    occurrences.withinBound moment = true ↔
      ∀ stop ∈ occurrences.bound, moment.start ≤ stop := by
  unfold withinBound
  split <;> simp_all

/-- What comes before a minute within the bound is within the bound. -/
theorem withinBound_of_le {earlier later : CalendarMinute} (hle : earlier ≤ later)
    (h : occurrences.withinBound later = true) : occurrences.withinBound earlier = true := by
  rw [withinBound_iff] at h ⊢
  intro stop hstop
  have hlater := h stop hstop
  rw [DateTime.start_le_iff] at hlater ⊢
  exact hle.trans hlater

/-- The matches to come are among those up to the year of the bound. -/
theorem Pending.mem_matchesWithin {position moment : CalendarMinute}
    (hposition : occurrences.position = some position) (h : occurrences.Pending moment) :
    moment ∈ occurrences.matcher.matchesWithin position (occurrences.bound.map (·.date.year)) := by
  obtain ⟨⟨start, hstart, hle⟩, hadmits, hbound⟩ := h
  rw [hposition] at hstart
  cases hstart
  refine ⟨hadmits, hle, fun year hyear ↦ ?_⟩
  rw [Option.mem_map] at hyear
  obtain ⟨stop, hstop, rfl⟩ := hyear
  have hlimit := withinBound_iff.mp hbound stop hstop
  rw [DateTime.start_le_iff, ← Cursor.ofMinute_le_ofMinute_iff] at hlimit
  exact Cursor.year_le_of_le hlimit

/-- Without a position the end has come already. -/
theorem finished_eq_self (h : occurrences.position = none) :
    occurrences.finished = occurrences := by
  cases occurrences
  cases h
  rfl

/-- What one call answers and leaves, by the match that the search finds. -/
theorem result_next {position : CalendarMinute} (hposition : occurrences.position = some position) :
    occurrences.next.result =
      match occurrences.matcher.firstAtOrAfter? position (occurrences.bound.map (·.date.year)) with
      | none => (none, occurrences.finished)
      | some moment =>
        if occurrences.withinBound moment then
          (some moment, { occurrences with position := moment.next? })
        else
          (none, occurrences.finished) := by
  unfold next
  rw [hposition]
  rfl

/-- The matches after a match are those that come from the minute after it on. -/
theorem pending_advanced_iff {position least moment : CalendarMinute}
    (hposition : occurrences.position = some position) (hle : position ≤ least) :
    { occurrences with position := least.next? }.Pending moment ↔
      occurrences.Pending moment ∧ least < moment := by
  have hafter : (∃ next ∈ least.next?, next ≤ moment) ↔ least < moment := by
    rw [CalendarMinute.lt_iff_next?_le]
    simp only [Option.mem_def]
  constructor
  · intro h
    obtain ⟨hnext, hadmits, hbound⟩ := h
    have hlt := hafter.mp hnext
    exact ⟨⟨⟨position, hposition, hle.trans hlt.le⟩, hadmits, hbound⟩, hlt⟩
  · intro h
    obtain ⟨⟨-, hadmits, hbound⟩, hlt⟩ := h
    exact ⟨hafter.mpr hlt, hadmits, hbound⟩

/-- One call answers with the first match to come, if there is one, and leaves the matches
after it. -/
theorem next_spec (hdomains : occurrences.matcher.WithinDomains) :
    occurrences.next.result.1 = occurrences.ahead.head? ∧
      occurrences.next.result.2.ahead = occurrences.ahead.tail ∧
        occurrences.next.result.2.matcher = occurrences.matcher := by
  have hended (hnil : occurrences.ahead = [])
      (hresult : occurrences.next.result = (none, occurrences.finished)) :
      occurrences.next.result.1 = occurrences.ahead.head? ∧
        occurrences.next.result.2.ahead = occurrences.ahead.tail ∧
          occurrences.next.result.2.matcher = occurrences.matcher := by
    rw [hresult, hnil]
    exact ⟨rfl, ahead_finished, rfl⟩
  cases hposition : occurrences.position with
  | none =>
    have hfinished := finished_eq_self hposition
    refine hended (by rw [← hfinished]; exact ahead_finished) ?_
    rw [next, hposition, hfinished]
  | some position =>
    have hsearch := Matcher.firstAtOrAfter?_isLeastOrNone hdomains position
      (occurrences.bound.map (·.date.year))
    have hresult := result_next hposition
    cases hfound : occurrences.matcher.firstAtOrAfter? position
        (occurrences.bound.map (·.date.year)) with
    | none =>
      rw [hfound] at hsearch hresult
      refine hended (ahead_eq_nil_iff.mpr fun moment hpending ↦ ?_) hresult
      have hmem := hpending.mem_matchesWithin hposition
      rw [show Matcher.matchesWithin _ _ _ = ∅ from hsearch] at hmem
      cases hmem
    | some least =>
      rw [hfound] at hsearch hresult
      obtain ⟨⟨hadmits, hstart, -⟩, hleast⟩ := hsearch
      have hle {moment : CalendarMinute} (hpending : occurrences.Pending moment) :
          least ≤ moment := hleast (hpending.mem_matchesWithin hposition)
      by_cases hbound : occurrences.withinBound least = true
      · have hcons : occurrences.ahead =
            least :: { occurrences with position := least.next? }.ahead :=
          ahead_eq_cons ⟨⟨position, hposition, hstart⟩, hadmits, hbound⟩
            (fun _ ↦ pending_advanced_iff hposition hstart) (fun _ ↦ hle)
        simp only [hbound, ↓reduceIte] at hresult
        rw [hresult, hcons]
        exact ⟨rfl, rfl, rfl⟩
      · refine hended (ahead_eq_nil_iff.mpr fun moment hpending ↦ ?_) ?_
        · exact hbound (withinBound_of_le (hle hpending) hpending.2.2)
        · rw [hresult]
          simp only [hbound, Bool.false_eq_true, ↓reduceIte]

/-- A call finds nothing because there is nothing to come, or it answers with the first match to
come and leaves the others. -/
theorem next_cases (hdomains : occurrences.matcher.WithinDomains) :
    (∃ rest, occurrences.next.result = (none, rest) ∧ occurrences.ahead = [] ∧
      rest.ahead = [] ∧ rest.matcher = occurrences.matcher) ∨
    ∃ first rest, occurrences.next.result = (some first, rest) ∧
      occurrences.ahead = first :: rest.ahead ∧ rest.matcher = occurrences.matcher ∧
        rest.matcher.WithinDomains := by
  obtain ⟨hhead, htail, hmatcher⟩ := next_spec hdomains
  obtain ⟨⟨found, rest⟩, hresult⟩ : ∃ result, occurrences.next.result = result := ⟨_, rfl⟩
  rw [hresult] at hhead htail hmatcher
  cases found with
  | none =>
    have hnil : occurrences.ahead = [] := List.head?_eq_none_iff.mp hhead.symm
    rw [hnil] at htail
    exact Or.inl ⟨rest, hresult, hnil, htail, hmatcher⟩
  | some first =>
    refine Or.inr ⟨first, rest, hresult, ?_, hmatcher, ?_⟩
    · rw [htail]
      exact List.eq_cons_of_mem_head? hhead.symm
    · rw [hmatcher]
      exact hdomains

/-! ### One call after another -/

/-- What the call of `next` answers that comes after so many others. -/
def call : Nat → Occurrences → Option CalendarMinute
  | 0, occurrences => occurrences.next.result.1
  | count + 1, occurrences => call count occurrences.next.result.2

/-- The call after so many others answers with the match to come at that place. -/
theorem call_eq_getElem? (hdomains : occurrences.matcher.WithinDomains) (count : Nat) :
    occurrences.call count = occurrences.ahead[count]? := by
  induction count generalizing occurrences with
  | zero =>
    rw [call, (next_spec hdomains).1, List.head?_eq_getElem?]
  | succ count ih =>
    obtain ⟨-, hahead, hmatcher⟩ := next_spec hdomains
    rw [call, ih (by rw [hmatcher]; exact hdomains), hahead, List.getElem?_tail]

/-- Matches that are taken while they are kept are the front of those to come. -/
theorem items_collectWhile (hdomains : occurrences.matcher.WithinDomains)
    (keep : CalendarMinute → Bool) (count : Nat) :
    (collectWhile keep [] [] count occurrences).result.items =
      (occurrences.ahead.take count).takeWhile keep := by
  induction count generalizing occurrences with
  | zero => rfl
  | succ count ih =>
    rw [collectWhile_succ]
    rcases next_cases hdomains with
      ⟨rest, hresult, hnil, -⟩ | ⟨first, rest, hresult, hcons, -, hrest⟩
    · rw [hresult, hnil]
      rfl
    · rw [hresult, hcons, List.take_succ_cons]
      dsimp only
      split
      · rename_i hkeep
        rw [List.takeWhile_cons_of_pos hkeep, ← ih hrest]
      · rename_i hkeep
        rw [List.takeWhile_cons_of_neg hkeep]

/-- So many matches at a time are the first ones of those to come. -/
theorem items_take (hdomains : occurrences.matcher.WithinDomains) (count : Nat) :
    (occurrences.take count).result.items = occurrences.ahead.take count := by
  rw [take, items_collectWhile hdomains, List.takeWhile_eq_self_iff]
  exact fun _ _ ↦ rfl

/-- No more matches are still to come than minutes are left. -/
theorem length_ahead_le : occurrences.ahead.length ≤ occurrences.minutesLeft := by
  rw [ahead, Finset.length_sort, minutesLeft]
  cases hposition : occurrences.position with
  | none =>
    have hnone (moment : CalendarMinute) : ¬ occurrences.Pending moment := by
      intro h
      obtain ⟨⟨position, hsome, -⟩, -⟩ := h
      rw [hposition] at hsome
      cases hsome
    simp [hnone]
  | some position =>
    have hinto : Set.MapsTo CalendarMinute.number
        ((Set.toFinite {moment | occurrences.Pending moment}).toFinset : Set CalendarMinute)
        (Finset.Icc position.number CalendarMinute.last.number : Set Int) := by
      intro moment hmem
      rw [Finset.mem_coe, Set.Finite.mem_toFinset] at hmem
      obtain ⟨⟨start, hstart, hle⟩, -⟩ := hmem
      rw [hposition] at hstart
      cases hstart
      rw [Finset.mem_coe, Finset.mem_Icc]
      exact ⟨hle, CalendarMinute.le_last moment⟩
    have hcard := Finset.card_le_card_of_injOn CalendarMinute.number hinto
      CalendarMinute.number_injective.injOn
    rw [Int.card_Icc] at hcard
    simp only [CalendarMinute.followers]
    omega

/-- All matches are those to come. -/
theorem result_toList (hdomains : occurrences.matcher.WithinDomains) :
    occurrences.toList.result = occurrences.ahead := by
  have hitems := items_take hdomains (occurrences.minutesLeft + 1)
  rw [List.take_of_length_le (length_ahead_le.trans (Nat.le_succ _))] at hitems
  exact hitems

end Occurrences

/-! ### The minutes that an expression selects -/

namespace Expression

/-- The minutes that match an expression, from the minute of a start on and no later than a
bound if there is one. -/
noncomputable def selection (expression : Expression) (start : DateTime)
    (bound : Option DateTime) : Finset CalendarMinute :=
  (Set.toFinite {moment : CalendarMinute | start.truncate ≤ moment ∧
    (∀ stop ∈ bound, moment.start ≤ stop) ∧
      expression.matchesAt moment.start = true}).toFinset

theorem withinDomains_occurrences (expression : Expression) (start : DateTime)
    (bound : Option DateTime) : (expression.occurrences start bound).matcher.WithinDomains :=
  Matcher.withinDomains_ofExpression expression

/-- The matches to come at first are those that the expression selects. -/
theorem ahead_occurrences (expression : Expression) (start : DateTime)
    (bound : Option DateTime) :
    (expression.occurrences start bound).ahead =
      (expression.selection start bound).sort (· ≤ ·) := by
  have hpending (moment : CalendarMinute) :
      (expression.occurrences start bound).Pending moment ↔ start.truncate ≤ moment ∧
        (∀ stop ∈ bound, moment.start ≤ stop) ∧
          expression.matchesAt moment.start = true := by
    unfold Occurrences.Pending
    rw [Occurrences.withinBound_iff]
    constructor
    · intro h
      obtain ⟨⟨position, ⟨⟩, hle⟩, hadmits, hbound⟩ := h
      exact ⟨hle, hbound, hadmits⟩
    · intro h
      obtain ⟨hle, hbound, hmatches⟩ := h
      exact ⟨⟨start.truncate, rfl, hle⟩, hmatches, hbound⟩
  simp only [Occurrences.ahead, selection, hpending]

/-- A scan of a window, kept to the minutes that match, is what the expression selects in
ascending order. -/
theorem sort_selection (expression : Expression) (start stop : DateTime) :
    (expression.selection start (some stop)).sort (· ≤ ·) =
      (start.truncate.scan stop).filter fun moment ↦ expression.matchesAt moment.start := by
  have hpairwise := (CalendarMinute.pairwise_scan start.truncate stop).filter
    fun moment ↦ expression.matchesAt moment.start
  have hset : expression.selection start (some stop) =
      ((start.truncate.scan stop).filter fun moment ↦
        expression.matchesAt moment.start).toFinset := by
    ext moment
    simp only [selection, Set.Finite.mem_toFinset, Set.mem_ofPred_eq, List.mem_toFinset,
      List.mem_filter, CalendarMinute.mem_scan, Option.mem_some_iff, forall_eq', and_assoc]
  rw [hset, (List.toFinset_sort (· ≤ ·) (hpairwise.imp ne_of_lt)).mpr (hpairwise.imp le_of_lt)]

/-- Asking for one match after another gives the minutes that an expression selects from a
start on, up to a bound if there is one: the call after so many others answers with the one
that is greater than so many of them, and with none once they are all used up. All matches
of a window are those that a scan of it, minute by minute, finds. -/
theorem call_occurrences (expression : Expression) (start : DateTime) (bound : Option DateTime) :
    (∀ count, (expression.occurrences start bound).call count =
      ((expression.selection start bound).sort (· ≤ ·))[count]?) ∧
    ∀ stop, (expression.between start stop).result =
      (start.truncate.scan stop).filter fun moment ↦ expression.matchesAt moment.start := by
  constructor
  · intro count
    rw [Occurrences.call_eq_getElem? (withinDomains_occurrences expression start bound),
      ahead_occurrences]
  · intro stop
    rw [between, Occurrences.result_toList (withinDomains_occurrences expression start _),
      ahead_occurrences, sort_selection]

end Expression

end Recurrence
