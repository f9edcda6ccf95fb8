import Mathlib.Order.Bounds.Basic
import Recurrence.Occurrences.ValueSet

/-!
The least member of a set from a byte on.

A search in a set of numbers below 64 shifts a word, masks it and counts the zeros at its end.
A shift by the width of a word or more has no meaning, and a count as great as the width names no
bit. `ValueSet.guardedContains` and `ValueSet.guardedNextFrom` are the membership and the search
on bytes, with both operations asked to stay within the word.

They always do. Bytes from 64 on are told apart before anything is shifted, and zeros are
counted only in a word that has a bit, so that there are fewer of them than 64
(`ctz_le_of_ne_zero`). What a search finds is the least byte from its start on that is a member,
and it finds nothing exactly where no such byte is one (`ValueSet.nextFrom?_isLeast`).
-/

set_option autoImplicit false
set_option relaxedAutoImplicit false

namespace Recurrence.Occurrences

/-! ### Operations within a word -/

/-- How an operation leaves its word. -/
inductive WordFault
  /-- A shift by 64 or more. -/
  | shift
  /-- A count of more than 63 zeros. -/
  | zeros
deriving DecidableEq

section Words

variable {word : BitVec 64} {amount : UInt8}

/-- A word shifted to the left, which must be by less than its width. -/
def shiftedLeft (word : BitVec 64) (amount : UInt8) : Except WordFault (BitVec 64) :=
  if amount.toNat < 64 then .ok (word <<< amount.toNat) else .error .shift

/-- The number of zeros at the end of a word, which must be less than its width. -/
def trailingZeros (word : BitVec 64) : Except WordFault UInt8 :=
  if word.ctz.toNat ≤ 63 then .ok (UInt8.ofNat word.ctz.toNat) else .error .zeros

theorem shiftedLeft_of_lt (h : amount.toNat < 64) :
    shiftedLeft word amount = .ok (word <<< amount.toNat) :=
  if_pos h

/-- A word that has a bit ends with fewer zeros than it is wide. -/
theorem ctz_le_of_ne_zero (h : word ≠ 0) : word.ctz.toNat ≤ 63 :=
  Nat.le_of_lt_succ (BitVec.lt_of_getLsbD (BitVec.getLsbD_true_ctz_of_ne_zero h))

theorem trailingZeros_of_ne_zero (h : word ≠ 0) :
    trailingZeros word = .ok (UInt8.ofNat word.ctz.toNat) :=
  if_pos (ctz_le_of_ne_zero h)

/-- The place of the lowest bit of a word that has one. -/
def lowestBit? (word : BitVec 64) : Except WordFault (Option UInt8) :=
  if word = 0 then return none else return some (← trailingZeros word)

/-- The lowest bit of a word is found without counting too many zeros, and its place is a byte. -/
theorem map_toNat_lowestBit? (word : BitVec 64) :
    Option.map UInt8.toNat <$> lowestBit? word =
      .ok (if word = 0 then none else some word.ctz.toNat) := by
  unfold lowestBit?
  split_ifs with h
  · rfl
  · have hbyte : (UInt8.ofNat word.ctz.toNat).toNat = word.ctz.toNat :=
      UInt8.toNat_ofNat_of_lt' (Nat.lt_of_le_of_lt (ctz_le_of_ne_zero h) (by decide))
    rw [trailingZeros_of_ne_zero h]
    exact congrArg (Except.ok ∘ some) hbyte

/-- Masking a word with a single bit tests that bit. -/
theorem and_shiftLeft_one_bne_zero (word : BitVec 64) {index : Nat} (h : index < 64) :
    (word &&& ((1 : BitVec 64) <<< index) != 0) = word.getLsbD index := by
  have hshift : (1 : BitVec 64) <<< index = BitVec.twoPow 64 index :=
    (BitVec.twoPow_eq 64 index).symm
  have hpower : BitVec.twoPow 64 index ≠ 0 := by
    rw [ne_eq, ← BitVec.toNat_inj, BitVec.toNat_twoPow_of_lt h]
    exact Nat.ne_of_gt (Nat.two_pow_pos index)
  rw [hshift, BitVec.and_twoPow]
  cases word.getLsbD index with
  | false => rfl
  | true => exact bne_iff_ne.mpr hpower

end Words

namespace ValueSet

variable {set : ValueSet} {value byte : UInt8}

/-! ### Bytes and words -/

/-- A byte is a member, with the bit that stands for it asked to be one of the word. -/
def guardedContains (set : ValueSet) (value : UInt8) : Except WordFault Bool :=
  if value < 64 then do
    let bit ← shiftedLeft 1 value
    return set.mask &&& bit != 0
  else
    return false

/-- The least member from a byte on, with the shift and the count of zeros asked to be within
the word. -/
def guardedNextFrom (set : ValueSet) (value : UInt8) : Except WordFault (Option UInt8) :=
  if 64 ≤ value then
    return none
  else do
    let kept ← shiftedLeft (BitVec.allOnes 64) value
    lowestBit? (set.mask &&& kept)

/-- Whether a byte is a member is told without leaving the word. -/
theorem guardedContains_eq_ok (set : ValueSet) (value : UInt8) :
    set.guardedContains value = .ok (set.contains value.toNat) := by
  unfold guardedContains
  split_ifs with hvalue
  · have hlt : value.toNat < 64 := UInt8.lt_iff_toNat_lt.mp hvalue
    rw [shiftedLeft_of_lt hlt]
    exact congrArg Except.ok (and_shiftLeft_one_bne_zero set.mask hlt)
  · have hge : 64 ≤ value.toNat := UInt8.le_iff_toNat_le.mp (UInt8.not_lt.mp hvalue)
    exact congrArg Except.ok (BitVec.getLsbD_of_ge set.mask value.toNat hge).symm

/-- A search from a byte on never leaves the word, and it finds the same among the bytes as among
all numbers. -/
theorem map_toNat_guardedNextFrom (set : ValueSet) (value : UInt8) :
    Option.map UInt8.toNat <$> set.guardedNextFrom value = .ok (set.nextFrom? value.toNat) := by
  unfold guardedNextFrom
  split_ifs with hvalue
  · have hge : ¬ value.toNat < 64 := Nat.not_lt.mpr (UInt8.le_iff_toNat_le.mp hvalue)
    rw [nextFrom?, if_neg hge]
    rfl
  · have hlt : value.toNat < 64 := UInt8.lt_iff_toNat_lt.mp (UInt8.not_le.mp hvalue)
    rw [nextFrom?, if_pos hlt, shiftedLeft_of_lt hlt]
    exact map_toNat_lowestBit? (set.mask &&& (BitVec.allOnes 64 <<< value.toNat))

/-! ### Members from a byte on -/

/-- The members of a set from a byte on. -/
def membersFrom (set : ValueSet) (value : UInt8) : Set UInt8 :=
  {byte | value ≤ byte ∧ set.contains byte.toNat = true}

/-- Every member is a byte. -/
theorem exists_toNat_eq_of_contains {number : Nat} (h : set.contains number = true) :
    ∃ byte : UInt8, byte.toNat = number :=
  ⟨UInt8.ofNat number, UInt8.toNat_ofNat_of_lt' ((lt_of_contains h).trans (by decide))⟩

/-- A byte is found exactly where it is the least member from the start on. -/
theorem nextFrom?_eq_some_toNat_iff :
    set.nextFrom? value.toNat = some byte.toNat ↔ IsLeast (set.membersFrom value) byte := by
  constructor
  · intro h
    obtain ⟨hle, hmember, -⟩ := nextFrom?_spec h
    refine ⟨⟨UInt8.le_iff_toNat_le.mpr hle, hmember⟩, ?_⟩
    rintro other ⟨hother, hcontains⟩
    rw [UInt8.le_iff_toNat_le] at hother ⊢
    exact le_of_nextFrom? h hcontains hother
  · rintro ⟨⟨hle, hmember⟩, hleast⟩
    rw [nextFrom?_eq_some_iff]
    refine ⟨UInt8.le_iff_toNat_le.mp hle, hmember, fun between hbetween hlt ↦ ?_⟩
    apply Bool.eq_false_of_not_eq_true
    intro hcontains
    -- `between` is any number here, but only a byte can be compared with the least one.
    obtain ⟨other, rfl⟩ := exists_toNat_eq_of_contains hcontains
    have hother := hleast ⟨UInt8.le_iff_toNat_le.mpr hbetween, hcontains⟩
    exact Nat.not_le_of_lt hlt (UInt8.le_iff_toNat_le.mp hother)

/-- Nothing is found exactly where there is no member from the start on. -/
theorem nextFrom?_eq_none_iff_membersFrom :
    set.nextFrom? value.toNat = none ↔ set.membersFrom value = ∅ := by
  rw [Set.eq_empty_iff_forall_notMem]
  constructor
  · rintro hnone byte ⟨hle, hmember⟩
    rw [UInt8.le_iff_toNat_le] at hle
    exact Nat.not_le_of_lt (lt_of_nextFrom?_eq_none hnone hmember) hle
  · intro hempty
    rw [nextFrom?_eq_none_iff]
    intro number hle
    apply Bool.eq_false_of_not_eq_true
    intro hcontains
    obtain ⟨byte, rfl⟩ := exists_toNat_eq_of_contains hcontains
    exact hempty byte ⟨UInt8.le_iff_toNat_le.mpr hle, hcontains⟩

/-- Whatever word a set is kept in and whatever byte a search starts from, it finds a byte exactly
where that is the least member from the start on, and nothing exactly where there is no member
from there on. Neither the search nor the test of a byte shifts by 64 or more, and no count of
zeros exceeds 63. -/
theorem nextFrom?_isLeast (set : ValueSet) (value : UInt8) :
    (∀ byte : UInt8,
      set.nextFrom? value.toNat = some byte.toNat ↔ IsLeast (set.membersFrom value) byte) ∧
    (set.nextFrom? value.toNat = none ↔ set.membersFrom value = ∅) ∧
    Option.map UInt8.toNat <$> set.guardedNextFrom value = .ok (set.nextFrom? value.toNat) ∧
    ∀ byte : UInt8, set.guardedContains byte = .ok (set.contains byte.toNat) :=
  ⟨fun _ ↦ nextFrom?_eq_some_toNat_iff, nextFrom?_eq_none_iff_membersFrom,
    map_toNat_guardedNextFrom set value, guardedContains_eq_ok set⟩

/-- From 10 on the greatest member is left, in the highest bit, and from 64 on there is none. -/
example : (ofList [9, 63]).guardedNextFrom 10 = .ok (some 63) ∧
    (ofList [9, 63]).guardedNextFrom 64 = .ok none := by
  decide +kernel

end ValueSet

end Recurrence.Occurrences
