import Recurrence.Pattern.Values

/-!
What a pattern means over a domain, said shape by shape and without listing anything,
and which patterns are the normal form of a text. The values that a pattern lists and
its domain holds are those that it denotes (`mem_values_and_admits_iff`).
-/

set_option autoImplicit false
set_option relaxedAutoImplicit false

namespace Recurrence.Pattern

/-- A value of the domain is meant by a pattern. A step of 0 means no value, and so does
a range whose end is before its start. -/
def Denotes (bounds : Bounds) (value : Nat) : Pattern → Prop
  | number only => value = only.toNat
  | wildcard => True
  | step increment =>
    0 < increment.toNat ∧ increment.toNat ∣ value - bounds.least.toNat
  | stepFrom start increment =>
    0 < increment.toNat ∧ start.toNat ≤ value ∧ increment.toNat ∣ value - start.toNat
  | stepRange first last increment =>
    0 < increment.toNat ∧ first.toNat ≤ value ∧ value ≤ last.toNat ∧
      increment.toNat ∣ value - first.toNat
  | range first last => first.toNat ≤ value ∧ value ≤ last.toNat
  | list values => ∃ member ∈ values.members, member.toNat = value

/-- A pattern in the form that reading gives it: its values lie in the domain, its steps
between 1 and the greatest value, its ranges run upwards, and its lists have more than
one value. -/
def Canonical (bounds : Bounds) : Pattern → Prop
  | number value => bounds.Admits value.toNat
  | wildcard => True
  | step increment => 1 ≤ increment.toNat ∧ increment ≤ bounds.greatest
  | stepFrom start increment =>
    bounds.Admits start.toNat ∧ 1 ≤ increment.toNat ∧ increment ≤ bounds.greatest
  | stepRange _ _ _ => False
  | range first last =>
    bounds.Admits first.toNat ∧ bounds.Admits last.toNat ∧ first ≤ last
  | list values =>
    2 ≤ values.members.length ∧ ∀ value ∈ values.members, bounds.Admits value.toNat

/-- Among the values of the domain, a pattern lists those that it denotes. -/
theorem mem_values_and_admits_iff {bounds : Bounds} {pattern : Pattern} {value : Nat} :
    value ∈ pattern.values bounds ∧ bounds.Admits value ↔
      bounds.Admits value ∧ pattern.Denotes bounds value := by
  rw [and_comm, and_congr_right_iff]
  intro hadmits
  unfold Bounds.Admits at hadmits
  cases pattern with
  | number only => simp [values, Denotes]
  | list members => simp [values, Denotes]
  | wildcard => simp [values, Denotes, mem_progression, hadmits]
  | range first last => simp [values, Denotes, mem_progression]
  | step increment => simp [values, Denotes, mem_progression, hadmits]
  | stepFrom start increment => simp [values, Denotes, mem_progression, hadmits]
  | stepRange first last increment => simp [values, Denotes, mem_progression]

end Recurrence.Pattern
