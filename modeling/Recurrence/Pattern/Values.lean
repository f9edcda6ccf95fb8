import Recurrence.Pattern.Basic

/-!
The numbers that the shape of a pattern lists, whether or not its domain holds them: a
progression keeps its phase from a start below the domain, and a step of 0 or a range
whose end is before its start lists nothing (`mem_progression`).
-/

set_option autoImplicit false
set_option relaxedAutoImplicit false

namespace Recurrence.Pattern

/-- The numbers from a first to a last one by equal steps; a step of 0 lists none. -/
def progression (first last increment : Nat) : List Nat :=
  if increment = 0 ∨ last < first then []
  else List.range' first ((last - first) / increment + 1) increment

/-- The numbers that a pattern lists over a domain. -/
def values (bounds : Bounds) : Pattern → List Nat
  | number value => [value.toNat]
  | wildcard => progression bounds.least.toNat bounds.greatest.toNat 1
  | step increment =>
    progression bounds.least.toNat bounds.greatest.toNat increment.toNat
  | stepFrom start increment =>
    progression start.toNat bounds.greatest.toNat increment.toNat
  | stepRange first last increment =>
    progression first.toNat last.toNat increment.toNat
  | range first last => progression first.toNat last.toNat 1
  | list values => values.members.map UInt8.toNat

/-- A progression holds the numbers between its ends that lie a whole number of steps
after the first. -/
theorem mem_progression {first last increment value : Nat} :
    value ∈ progression first last increment ↔
      0 < increment ∧ first ≤ value ∧ value ≤ last ∧ increment ∣ value - first := by
  unfold progression
  split
  · rename_i h
    simp only [List.not_mem_nil, false_iff, not_and]
    omega
  · rename_i h
    rw [List.mem_range']
    constructor
    · rintro ⟨index, hindex, rfl⟩
      have hmul : increment * index ≤ last - first :=
        Nat.le_trans (Nat.mul_le_mul_left _ (Nat.le_of_lt_succ hindex)) (Nat.mul_div_le _ _)
      refine ⟨by omega, by omega, by omega, ?_⟩
      rw [Nat.add_sub_cancel_left]
      exact Nat.dvd_mul_right _ _
    · rintro ⟨hpos, hfirst, hlast, index, hindex⟩
      refine ⟨index, ?_, by omega⟩
      have hle : index ≤ (last - first) / increment := by
        rw [Nat.le_div_iff_mul_le hpos, Nat.mul_comm]
        omega
      omega

end Recurrence.Pattern
