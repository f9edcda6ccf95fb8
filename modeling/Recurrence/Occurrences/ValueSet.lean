import Recurrence.Pattern.Values

/-!
The values that a pattern selects from a domain, as a set of numbers below 64 held in
one word. The least member from a number on is found by masking off what lies below
it and counting the zeros at the end of the rest (`nextFrom?_eq_some_iff`,
`nextFrom?_eq_none_iff`).
-/

set_option autoImplicit false
set_option relaxedAutoImplicit false

namespace Recurrence.Occurrences

/-- A set of numbers below 64, one bit for each. -/
structure ValueSet where
  mask : BitVec 64
deriving DecidableEq

namespace ValueSet

/-- The set without members. -/
def empty : ValueSet :=
  ⟨0⟩

/-- A number is a member. -/
def contains (set : ValueSet) (value : Nat) : Bool :=
  set.mask.getLsbD value

/-- A set without members. -/
def isEmpty (set : ValueSet) : Bool :=
  set.mask == 0

/-- The set with one more member; numbers from 64 on leave it as it is. -/
def insert (value : Nat) (set : ValueSet) : ValueSet :=
  ⟨set.mask ||| BitVec.twoPow 64 value⟩

/-- The set of the numbers of a list. -/
def ofList (values : List Nat) : ValueSet :=
  values.foldr insert empty

/-- The values of a domain that a pattern selects: those it lists and the domain
holds. -/
def ofPattern (bounds : Bounds) (pattern : Pattern) : ValueSet :=
  ofList ((pattern.values bounds).filter bounds.Admits)

/-- The least member that is no less than a number. -/
def nextFrom? (set : ValueSet) (value : Nat) : Option Nat :=
  if value < 64 then
    let rest := set.mask &&& (BitVec.allOnes 64 <<< value)
    if rest = 0 then none else some rest.ctz.toNat
  else
    none

/-! ### Membership -/

@[simp]
theorem contains_empty (value : Nat) : empty.contains value = false := by
  simp [contains, empty]

theorem lt_of_contains {set : ValueSet} {value : Nat} (h : set.contains value = true) :
    value < 64 :=
  BitVec.lt_of_getLsbD h

theorem contains_insert (set : ValueSet) (value other : Nat) :
    (set.insert value).contains other =
      (set.contains other || (decide (other < 64) && decide (value = other))) := by
  simp [contains, insert, BitVec.getLsbD_twoPow]
  grind

theorem contains_ofList (values : List Nat) (value : Nat) :
    (ofList values).contains value = true ↔ value < 64 ∧ value ∈ values := by
  induction values with
  | nil => simp [ofList]
  | cons head rest ih =>
    have hinsert : ofList (head :: rest) = (ofList rest).insert head := rfl
    rw [hinsert, contains_insert, Bool.or_eq_true, ih]
    simp only [Bool.and_eq_true, decide_eq_true_eq, List.mem_cons]
    grind

theorem isEmpty_iff (set : ValueSet) :
    set.isEmpty = true ↔ ∀ value, set.contains value = false := by
  constructor
  · intro h value
    simp only [isEmpty, beq_iff_eq] at h
    simp [contains, h]
  · intro h
    simp only [isEmpty, beq_iff_eq]
    exact BitVec.eq_of_getLsbD_eq fun index _ ↦ by simpa [contains] using h index

/-! ### The least member from a number on -/

/-- What is left of a set after masking off the numbers below one. -/
theorem getLsbD_and_shiftLeft (mask : BitVec 64) (value index : Nat) :
    (mask &&& (BitVec.allOnes 64 <<< value)).getLsbD index =
      (mask.getLsbD index && decide (value ≤ index)) := by
  by_cases h : index < 64
  · simp only [BitVec.getLsbD_and, BitVec.getLsbD_shiftLeft, BitVec.getLsbD_allOnes, h]
    grind
  · simp [BitVec.getLsbD_of_ge _ _ (Nat.le_of_not_lt h)]

/-- No member lies from a number on exactly when none is found. -/
theorem nextFrom?_eq_none_iff {set : ValueSet} {value : Nat} :
    set.nextFrom? value = none ↔ ∀ other, value ≤ other → set.contains other = false := by
  unfold nextFrom?
  split
  · rename_i hvalue
    simp only [ite_eq_left_iff, reduceCtorEq, imp_false, Classical.not_not]
    constructor
    · intro hrest other hle
      have hbit := getLsbD_and_shiftLeft set.mask value other
      rw [hrest, decide_eq_true hle, Bool.and_true] at hbit
      exact hbit.symm.trans BitVec.getLsbD_zero
    · intro h
      refine BitVec.eq_of_getLsbD_eq fun index _ ↦ ?_
      rw [getLsbD_and_shiftLeft]
      by_cases hle : value ≤ index
      · have hnot : set.mask.getLsbD index = false := h index hle
        simp [hnot]
      · simp [hle]
  · rename_i hvalue
    simp only [true_iff]
    intro other hle
    exact BitVec.getLsbD_of_ge _ _ (by omega)

/-- What is found from a number on is a member, no less than the number, and no number
between them is a member. -/
theorem nextFrom?_spec {set : ValueSet} {value found : Nat}
    (h : set.nextFrom? value = some found) :
    value ≤ found ∧ set.contains found = true ∧
      ∀ between, value ≤ between → between < found → set.contains between = false := by
  unfold nextFrom? at h
  split at h
  · simp only [Option.ite_none_left_eq_some, Option.some.injEq] at h
    obtain ⟨hrest, rfl⟩ := h
    have hfound := BitVec.getLsbD_true_ctz_of_ne_zero hrest
    rw [getLsbD_and_shiftLeft, Bool.and_eq_true, decide_eq_true_eq] at hfound
    refine ⟨hfound.2, hfound.1, fun between hle hlt ↦ ?_⟩
    have hbetween := BitVec.getLsbD_false_of_lt_ctz hlt
    rw [getLsbD_and_shiftLeft, decide_eq_true hle, Bool.and_true] at hbetween
    exact hbetween
  · cases h

/-- A search from a number on ends at a member below 64. -/
theorem nextFrom?_bounds {set : ValueSet} {value found : Nat}
    (h : set.nextFrom? value = some found) : value ≤ found ∧ found < 64 :=
  ⟨(nextFrom?_spec h).1, lt_of_contains (nextFrom?_spec h).2.1⟩

/-- What is found from a number on is no greater than any member that is no less. -/
theorem le_of_nextFrom? {set : ValueSet} {value found other : Nat}
    (h : set.nextFrom? value = some found) (hmem : set.contains other = true)
    (hle : value ≤ other) : found ≤ other := by
  apply Nat.le_of_not_lt
  intro hlt
  have hnot := (nextFrom?_spec h).2.2 other hle hlt
  rw [hmem] at hnot
  cases hnot

/-- Where nothing is found from a number on, every member is less. -/
theorem lt_of_nextFrom?_eq_none {set : ValueSet} {value other : Nat}
    (h : set.nextFrom? value = none) (hmem : set.contains other = true) : other < value := by
  apply Nat.lt_of_not_le
  intro hle
  have hnot := nextFrom?_eq_none_iff.mp h other hle
  rw [hmem] at hnot
  cases hnot

/-- A number is found from another on exactly when it is the least member that is no
less. -/
theorem nextFrom?_eq_some_iff {set : ValueSet} {value found : Nat} :
    set.nextFrom? value = some found ↔
      value ≤ found ∧ set.contains found = true ∧
        ∀ between, value ≤ between → between < found → set.contains between = false := by
  refine ⟨nextFrom?_spec, fun ⟨hle, hmem, hleast⟩ ↦ ?_⟩
  cases hfound : set.nextFrom? value with
  | none => exact absurd hle (Nat.not_le_of_lt (lt_of_nextFrom?_eq_none hfound hmem))
  | some other =>
    obtain ⟨hother, hmember, -⟩ := nextFrom?_spec hfound
    rcases Nat.lt_or_eq_of_le (le_of_nextFrom? hfound hmem hle) with hlt | rfl
    · simp [hleast other hother hlt] at hmember
    · rfl

end ValueSet

end Recurrence.Occurrences
