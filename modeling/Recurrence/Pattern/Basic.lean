import Recurrence.Field

/-!
What one field of an expression says: a value, a progression, a range, a list of
values, or anything. Patterns can be built directly with any bytes; which of them
name values of a domain is a matter of their meaning, not of this type.
-/

set_option autoImplicit false
set_option relaxedAutoImplicit false

namespace Recurrence

/-- Adds a value to an ascending list, in its place and once. -/
def insertAscending (value : UInt8) : List UInt8 → List UInt8
  | [] => [value]
  | head :: rest =>
    if value < head then value :: head :: rest
    else if value = head then head :: rest
    else head :: insertAscending value rest

theorem mem_insertAscending {value other : UInt8} {values : List UInt8} :
    other ∈ insertAscending value values ↔ other = value ∨ other ∈ values := by
  induction values with
  | nil => simp [insertAscending]
  | cons head rest ih =>
    unfold insertAscending
    split
    · simp
    · split
      · rename_i heq
        simp [heq]
      · simp only [List.mem_cons, ih]
        exact or_left_comm

theorem pairwise_insertAscending {value : UInt8} {values : List UInt8}
    (h : values.Pairwise (· < ·)) : (insertAscending value values).Pairwise (· < ·) := by
  induction values with
  | nil => simp [insertAscending]
  | cons head rest ih =>
    rw [List.pairwise_cons] at h
    unfold insertAscending
    split
    · rename_i hlt
      refine List.pairwise_cons.mpr ⟨fun other hother ↦ ?_, List.pairwise_cons.mpr h⟩
      rcases List.mem_cons.mp hother with rfl | hmem
      · exact hlt
      · exact UInt8.lt_trans hlt (h.1 other hmem)
    · split
      · exact List.pairwise_cons.mpr h
      · rename_i hnlt hne
        refine List.pairwise_cons.mpr ⟨fun other hother ↦ ?_, ih h.2⟩
        rcases mem_insertAscending.mp hother with rfl | hmem
        · exact UInt8.lt_of_le_of_ne (UInt8.not_lt.mp hnlt) (Ne.symm hne)
        · exact h.1 other hmem

theorem insertAscending_of_forall_lt {value : UInt8} {values : List UInt8}
    (h : ∀ other ∈ values, value < other) : insertAscending value values = value :: values := by
  cases values with
  | nil => rfl
  | cons head rest => simp [insertAscending, h head]

/-- A finite set of bytes, kept as its members in ascending order. -/
structure ByteSet where
  members : List UInt8
  ascending : members.Pairwise (· < ·) := by simp
deriving DecidableEq

namespace ByteSet

/-- The set without members. -/
def empty : ByteSet where
  members := []

/-- The set with one more member, if it was not one already. -/
def insert (value : UInt8) (set : ByteSet) : ByteSet where
  members := insertAscending value set.members
  ascending := pairwise_insertAscending set.ascending

/-- The set of the values of a list. -/
def ofList (values : List UInt8) : ByteSet :=
  values.foldr insert empty

theorem mem_ofList {value : UInt8} {values : List UInt8} :
    value ∈ (ofList values).members ↔ value ∈ values := by
  induction values with
  | nil => simp [ofList, empty]
  | cons head rest ih =>
    rw [List.mem_cons, ← ih]
    exact mem_insertAscending

/-- A set is the set of its members. -/
theorem ofList_members (set : ByteSet) : ofList set.members = set := by
  obtain ⟨members, ascending⟩ := set
  suffices h : (ofList members).members = members by
    revert h
    generalize ofList members = found
    cases found
    rintro rfl
    rfl
  induction members with
  | nil => rfl
  | cons head rest ih =>
    rw [List.pairwise_cons] at ascending
    calc (ofList (head :: rest)).members
        = insertAscending head (ofList rest).members := rfl
      _ = insertAscending head rest := by rw [ih ascending.2]
      _ = head :: rest := insertAscending_of_forall_lt ascending.1

end ByteSet

/-- What one field says. -/
inductive Pattern
  | number (value : UInt8)
  | wildcard
  | step (increment : UInt8)
  | stepFrom (start increment : UInt8)
  | stepRange (first last increment : UInt8)
  | range (first last : UInt8)
  | list (values : ByteSet)
deriving DecidableEq

namespace Pattern

/-- A pattern that admits every value of its field by its shape alone. -/
def isWildcard : Pattern → Bool
  | wildcard => true
  | _ => false

/-- The pattern of a list of values; a list that repeats one value is that value. -/
def ofValues (values : List UInt8) : Pattern :=
  match (ByteSet.ofList values).members with
  | [value] => number value
  | _ => list (ByteSet.ofList values)

end Pattern

end Recurrence
