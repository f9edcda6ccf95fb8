import Recurrence.Pattern.Meaning
import Recurrence.Proofs.FirstMatch

/-!
What a field selects is what its pattern denotes.

The set of a pattern is built by listing, filtering and setting bits. Its members are the
values of the domain that the pattern denotes (`ValueSet.contains_ofPattern_iff`), so a field
lists these values in ascending order (`Expression.mem_selected_iff`,
`Expression.pairwise_selected`), and a minute matches an expression where each of its parts is
denoted by the pattern of its field (`Expression.matchesAt_iff_denotes`).

A progression is a list of numbers without an upper end of their own. Stepping from byte to
byte, with an addition that ends the listing where its result is no byte, finds the same
numbers (`Pattern.map_toNat_bytesFrom`).
-/

set_option autoImplicit false
set_option relaxedAutoImplicit false

namespace Recurrence

open Recurrence.Calendar Recurrence.Occurrences

/-! ### Steps from byte to byte -/

namespace Pattern

/-- The sum of two bytes, if it is a byte. -/
def byteSum? (first second : UInt8) : Option UInt8 :=
  if first.toNat + second.toNat < 256 then some (first + second) else none

theorem toNat_of_byteSum? {first second sum : UInt8} (h : byteSum? first second = some sum) :
    sum.toNat = first.toNat + second.toNat := by
  unfold byteSum? at h
  split_ifs at h with hlt
  cases h
  rw [UInt8.toNat_add, Nat.mod_eq_of_lt hlt]

theorem le_of_byteSum?_eq_none {first second : UInt8} (h : byteSum? first second = none) :
    256 ≤ first.toNat + second.toNat := by
  unfold byteSum? at h
  split_ifs at h with hlt
  exact Nat.le_of_not_lt hlt

/-- The bytes from a first to a last one by equal steps, found one after another. They end
where a step leads out of the bytes, and a step of 0 finds none. -/
def bytesFrom (first last increment : UInt8) : List UInt8 :=
  if increment = 0 ∨ last < first then
    []
  else
    first :: match _ : byteSum? first increment with
      | none => []
      | some next => bytesFrom next last increment
termination_by 256 - first.toNat
decreasing_by
  have hsum := toNat_of_byteSum? ‹_›
  have hpos : increment.toNat ≠ 0 := fun h ↦ ‹¬ _› (Or.inl (UInt8.toNat_inj.mp h))
  have hlt := first.toNat_lt
  omega

/-- A progression goes on with the progression from the next number. -/
theorem progression_eq_cons {first last increment : Nat} (hpos : 0 < increment)
    (hle : first ≤ last) :
    progression first last increment =
      first :: progression (first + increment) last increment := by
  have hgoes : ¬ (increment = 0 ∨ last < first) := by omega
  rw [progression, if_neg hgoes, List.range'_succ, progression]
  split_ifs with hends
  · rw [Nat.div_eq_of_lt (by omega)]
    rfl
  · have hcount := Nat.div_eq_sub_div hpos (show increment ≤ last - first by omega)
    rw [hcount, Nat.sub_sub]

/-- The numbers of a progression between bytes are those found from byte to byte. -/
theorem map_toNat_bytesFrom (first last increment : UInt8) :
    (bytesFrom first last increment).map UInt8.toNat =
      progression first.toNat last.toNat increment.toNat := by
  fun_induction bytesFrom first last increment with
  | case1 first hends =>
    have hnone : increment.toNat = 0 ∨ last.toNat < first.toNat := by
      rcases hends with rfl | hlt
      · exact Or.inl rfl
      · exact Or.inr (UInt8.lt_iff_toNat_lt.mp hlt)
    rw [progression, if_pos hnone]
    rfl
  | case2 first hgoes ih =>
    rw [not_or, UInt8.not_lt] at hgoes
    have hpos : 0 < increment.toNat :=
      Nat.pos_of_ne_zero fun h ↦ hgoes.1 (UInt8.toNat_inj.mp h)
    rw [progression_eq_cons hpos (UInt8.le_iff_toNat_le.mp hgoes.2), List.map_cons]
    congr 1
    split
    · rename_i hnone
      have hpast := le_of_byteSum?_eq_none hnone
      have hlast := last.toNat_lt
      rw [progression, if_pos (Or.inr (by omega))]
      rfl
    · rename_i next hnext
      rw [ih next hnext, toNat_of_byteSum? hnext]

end Pattern

/-! ### Members -/

namespace Occurrences.ValueSet

variable {field : Field} {pattern : Pattern} {value : Nat}

/-- The values of every domain have a place in a set. -/
theorem lt_of_admits (h : field.bounds.Admits value) : value < 64 := by
  have hgreatest : field.bounds.greatest.toNat < 64 := by
    cases field <;> decide
  exact Nat.lt_of_le_of_lt h.2 hgreatest

/-- The members of the set of a pattern are the values of the domain that it denotes. -/
theorem contains_ofPattern_iff :
    (ofPattern field.bounds pattern).contains value = true ↔
      field.bounds.Admits value ∧ pattern.Denotes field.bounds value := by
  rw [ofPattern, contains_ofList, List.mem_filter, decide_eq_true_eq,
    ← Pattern.mem_values_and_admits_iff]
  constructor
  · intro h
    exact h.2
  · intro h
    exact ⟨lt_of_admits h.2, h⟩

/-- The set of a pattern that denotes nothing is empty. -/
theorem isEmpty_ofPattern (h : ∀ value, ¬ pattern.Denotes field.bounds value) :
    (ofPattern field.bounds pattern).isEmpty = true := by
  rw [isEmpty_iff]
  intro value
  apply Bool.eq_false_of_not_eq_true
  intro hcontains
  exact h value (contains_ofPattern_iff.mp hcontains).2

/-- A byte is a member of the set of a pattern exactly where it belongs to the domain and the
pattern denotes it. Progressions end where the next number would be no byte, and neither a
range whose end is before its start nor a step of 0 has any members. -/
theorem contains_ofPattern_byte (field : Field) :
    (∀ (pattern : Pattern) (value : UInt8),
      (ofPattern field.bounds pattern).contains value.toNat = true ↔
        field.bounds.Admits value.toNat ∧ pattern.Denotes field.bounds value.toNat) ∧
    (∀ first last increment,
      (Pattern.step increment).values field.bounds =
          (Pattern.bytesFrom field.bounds.least field.bounds.greatest increment).map UInt8.toNat ∧
        (Pattern.stepFrom first increment).values field.bounds =
          (Pattern.bytesFrom first field.bounds.greatest increment).map UInt8.toNat ∧
        (Pattern.stepRange first last increment).values field.bounds =
          (Pattern.bytesFrom first last increment).map UInt8.toNat) ∧
    (∀ first last, last < first →
      (ofPattern field.bounds (.range first last)).isEmpty = true ∧
        ∀ increment, (ofPattern field.bounds (.stepRange first last increment)).isEmpty = true) ∧
    (ofPattern field.bounds (.step 0)).isEmpty = true ∧
      ∀ first, (ofPattern field.bounds (.stepFrom first 0)).isEmpty = true ∧
        ∀ last, (ofPattern field.bounds (.stepRange first last 0)).isEmpty = true := by
  refine ⟨fun pattern value ↦ contains_ofPattern_iff, fun first last increment ↦ ?_,
    fun first last hreversed ↦ ?_, ?_, fun first ↦ ⟨?_, fun last ↦ ?_⟩⟩
  · simp only [Pattern.map_toNat_bytesFrom, Pattern.values, and_self]
  · rw [UInt8.lt_iff_toNat_lt] at hreversed
    constructor
    · apply isEmpty_ofPattern
      intro value hdenotes
      have hends : first.toNat ≤ value ∧ value ≤ last.toNat := hdenotes
      omega
    · intro increment
      apply isEmpty_ofPattern
      intro value hdenotes
      obtain ⟨-, hfirst, hlast, -⟩ := hdenotes
      omega
  · exact isEmpty_ofPattern fun value hdenotes ↦ absurd hdenotes.1 (Nat.lt_irrefl 0)
  · exact isEmpty_ofPattern fun value hdenotes ↦ absurd hdenotes.1 (Nat.lt_irrefl 0)
  · exact isEmpty_ofPattern fun value hdenotes ↦ absurd hdenotes.1 (Nat.lt_irrefl 0)

end Occurrences.ValueSet

/-! ### Matches -/

namespace Calendar.CalendarMinute

/-- The part of a minute that a field is about. -/
def part (moment : CalendarMinute) : Field → Nat
  | .minute => moment.minute
  | .hour => moment.hour
  | .dayOfMonth => moment.date.day
  | .month => moment.date.month
  | .dayOfWeek => moment.date.weekday

/-- The parts of a minute belong to the domains of their fields. -/
theorem admits_part (moment : CalendarMinute) (field : Field) :
    field.bounds.Admits (moment.part field) := by
  cases field with
  | minute => exact ⟨Nat.zero_le _, Nat.le_of_lt_succ moment.minute_lt⟩
  | hour => exact ⟨Nat.zero_le _, Nat.le_of_lt_succ moment.hour_lt⟩
  | dayOfMonth =>
    exact ⟨moment.date.day_bounds.1, moment.date.day_bounds.2.trans (daysInMonth_le _ _)⟩
  | month => exact moment.date.month_bounds
  | dayOfWeek =>
    refine ⟨Nat.zero_le _, ?_⟩
    change (moment.date.number % 7).toNat ≤ 6
    omega

end Calendar.CalendarMinute

namespace Expression

theorem get_ofExpression (expression : Expression) (field : Field) :
    (Matcher.ofExpression expression).get field =
      ValueSet.ofPattern field.bounds (expression.get field) := by
  cases field <;> rfl

/-- The values selected in a field are those of its domain that the pattern denotes. -/
theorem mem_selected_iff {field : Field} {pattern : Pattern} {value : Nat} :
    value ∈ selected field pattern ↔
      field.bounds.Admits value ∧ pattern.Denotes field.bounds value := by
  have hset : (Matcher.ofExpression (always.set field pattern)).get field =
      ValueSet.ofPattern field.bounds pattern := by
    rw [get_ofExpression, get_set_self]
  rw [selected, hset, List.mem_filter, List.mem_range, ValueSet.contains_ofPattern_iff]
  constructor
  · intro h
    exact h.2
  · intro h
    exact ⟨Nat.lt_succ_of_le h.1.2, h⟩

/-- They are listed in ascending order, each of them once. -/
theorem pairwise_selected (field : Field) (pattern : Pattern) :
    (selected field pattern).Pairwise (· < ·) :=
  List.pairwise_lt_range.filter _

/-- A date-time matches an expression where each of its parts is denoted by the pattern of its
field. -/
theorem matchesAt_iff_denotes {expression : Expression} {moment : DateTime} :
    expression.matchesAt moment = true ↔ ∀ field,
      (expression.get field).Denotes field.bounds (moment.truncate.part field) := by
  have hcontains (field : Field) :
      (ValueSet.ofPattern field.bounds (expression.get field)).contains
        (moment.truncate.part field) = true ↔
        (expression.get field).Denotes field.bounds (moment.truncate.part field) := by
    rw [ValueSet.contains_ofPattern_iff]
    exact and_iff_right (moment.truncate.admits_part field)
  rw [matchesAt, Matcher.admits_iff]
  constructor
  · intro h field
    obtain ⟨hmonth, hday, hweekday, hhour, hminute⟩ := h
    rw [← hcontains]
    cases field with
    | minute => exact hminute
    | hour => exact hhour
    | dayOfMonth => exact hday
    | month => exact hmonth
    | dayOfWeek => exact hweekday
  · intro h
    simp only [← hcontains] at h
    exact ⟨h .month, h .dayOfMonth, h .dayOfWeek, h .hour, h .minute⟩

end Expression

end Recurrence
