import Recurrence.Proofs.HorizonReport
import Recurrence.Proofs.SelectedValues
import Recurrence.Proofs.WrittenForm

/-!
What is read lists values of its domain only, and at least one.

A pattern can be built with any bytes, and then the domain keeps back what does not belong to
it. Of a pattern in normal form it keeps back nothing (`Pattern.admits_of_mem_values`), and such
a pattern lists a value (`Pattern.exists_mem_values`). A search ends at once only where some
field selects nothing (`Matcher.search_eq_nothingSelected_iff`). Since what is read is in normal
form, no search for an expression that was read ends like that
(`Expression.values_of_parse`).
-/

set_option autoImplicit false
set_option relaxedAutoImplicit false

namespace Recurrence

open Recurrence.Calendar Recurrence.Occurrences

/-! ### Patterns in normal form -/

namespace Pattern

variable {bounds : Bounds} {pattern : Pattern}

/-- A pattern in normal form lists values of its domain only. -/
theorem admits_of_mem_values (h : pattern.Canonical bounds) {value : Nat}
    (hvalue : value ∈ pattern.values bounds) : bounds.Admits value := by
  cases pattern with
  | number only =>
    rw [List.mem_singleton.mp hvalue]
    exact h
  | wildcard | step =>
    obtain ⟨-, hfirst, hlast, -⟩ := mem_progression.mp hvalue
    exact ⟨hfirst, hlast⟩
  | stepFrom start increment =>
    obtain ⟨-, hfirst, hlast, -⟩ := mem_progression.mp hvalue
    exact ⟨h.1.1.trans hfirst, hlast⟩
  | stepRange => exact h.elim
  | range first last =>
    obtain ⟨-, hfirst, hlast, -⟩ := mem_progression.mp hvalue
    exact ⟨h.1.1.trans hfirst, hlast.trans h.2.1.2⟩
  | list values =>
    obtain ⟨member, hmember, rfl⟩ := List.mem_map.mp hvalue
    exact h.2 member hmember

/-- A progression that does not end before it starts lists its first number. -/
theorem first_mem_progression {first last increment : Nat} (hpos : 0 < increment)
    (hle : first ≤ last) : first ∈ progression first last increment := by
  rw [mem_progression, Nat.sub_self]
  exact ⟨hpos, Nat.le_refl first, hle, Nat.dvd_zero increment⟩

/-- A pattern in normal form lists a value, if its domain has one. -/
theorem exists_mem_values (h : pattern.Canonical bounds)
    (hbounds : bounds.least ≤ bounds.greatest) : ∃ value, value ∈ pattern.values bounds := by
  have hdomain := UInt8.le_iff_toNat_le.mp hbounds
  cases pattern with
  | number only => exact ⟨_, List.mem_singleton_self _⟩
  | wildcard => exact ⟨_, first_mem_progression Nat.one_pos hdomain⟩
  | step increment => exact ⟨_, first_mem_progression h.1 hdomain⟩
  | stepFrom start increment => exact ⟨_, first_mem_progression h.2.1 h.1.2⟩
  | stepRange => exact h.elim
  | range first last =>
    exact ⟨_, first_mem_progression Nat.one_pos (UInt8.le_iff_toNat_le.mp h.2.2)⟩
  | list values =>
    obtain ⟨member, hmember⟩ := List.exists_mem_of_length_pos (Nat.lt_of_succ_lt h.1)
    exact ⟨_, List.mem_map_of_mem hmember⟩

/-- Of what a pattern in normal form lists, its domain keeps back nothing. -/
theorem filter_values (h : pattern.Canonical bounds) :
    (pattern.values bounds).filter bounds.Admits = pattern.values bounds := by
  rw [List.filter_eq_self]
  intro value hvalue
  exact decide_eq_true (admits_of_mem_values h hvalue)

end Pattern

namespace Occurrences

/-- Every domain has a value. -/
theorem ValueSet.least_le_greatest (field : Field) :
    field.bounds.least ≤ field.bounds.greatest := by
  cases field <;> decide

/-- A pattern in normal form selects something. -/
theorem ValueSet.isEmpty_ofPattern_eq_false {field : Field} {pattern : Pattern}
    (h : pattern.Canonical field.bounds) :
    (ValueSet.ofPattern field.bounds pattern).isEmpty = false := by
  obtain ⟨value, hvalue⟩ := Pattern.exists_mem_values h (least_le_greatest field)
  have hcontains : (ofPattern field.bounds pattern).contains value = true := by
    rw [ofPattern, contains_ofList, Pattern.filter_values h]
    exact ⟨lt_of_admits (Pattern.admits_of_mem_values h hvalue), hvalue⟩
  apply Bool.eq_false_of_not_eq_true
  intro hempty
  rw [(isEmpty_iff _).mp hempty value] at hcontains
  cases hcontains

/-! ### Searches that end at once -/

/-- A run through the calendar never ends as if some field selected nothing. -/
theorem Matcher.run_ne_nothingSelected {matcher : Matcher} {cursor : Cursor}
    (hdomains : matcher.WithinDomains)
    (hmonths : ∃ month, matcher.months.contains month = true) (hinside : cursor.Inside)
    (hyear : -9999 ≤ cursor.year) (reach : Reach) :
    matcher.run reach cursor ≠ .nothingSelected := by
  rcases run_cases hdomains hmonths hinside hyear with
    ⟨moment, hrun⟩ | ⟨-, hrun⟩ | ⟨-, hrun⟩
  · rw [hrun]
    nofun
  · rw [hrun]
    split_ifs <;> nofun
  · rw [hrun]
    nofun

/-- A search ends at once exactly where some field selects nothing. -/
theorem Matcher.search_eq_nothingSelected_iff {matcher : Matcher}
    (hdomains : matcher.WithinDomains) (start : CalendarMinute) (limit : Option Int) :
    matcher.search start limit = .nothingSelected ↔ matcher.hasEmptyField = true := by
  unfold search
  split_ifs with hempty
  · simp [hempty]
  · have hmonths := exists_contains_get (Bool.eq_false_of_not_eq_true hempty) .month
    have hbounds := start.date.year_bounds
    have hinside : (Cursor.ofMinute start).Inside := Or.inl hbounds.2
    exact iff_of_false (run_ne_nothingSelected hdomains hmonths hinside hbounds.1 _) hempty

end Occurrences

namespace Expression

/-- All numbers that the patterns of an expression list belong to the domains of their fields, if
the expression was read from a text: the domains keep back none of them. Every field selects
something, so a search for the expression never ends at once. -/
theorem values_of_parse {input : String} {expression : Expression}
    (h : parse input = .ok expression) :
    (∀ field,
      (∀ value ∈ (expression.get field).values field.bounds, field.bounds.Admits value) ∧
      ((expression.get field).values field.bounds).filter field.bounds.Admits =
        (expression.get field).values field.bounds ∧
      ((Matcher.ofExpression expression).get field).isEmpty = false) ∧
    (Matcher.ofExpression expression).hasEmptyField = false ∧
    ∀ start limit,
      (Matcher.ofExpression expression).search start limit ≠ .nothingSelected := by
  have hcanonical := canonical_of_parse h
  have hselects (field : Field) :
      ((Matcher.ofExpression expression).get field).isEmpty = false := by
    have hempty := ValueSet.isEmpty_ofPattern_eq_false (hcanonical field)
    cases field <;> exact hempty
  have hfields : (Matcher.ofExpression expression).hasEmptyField = false :=
    Matcher.hasEmptyField_eq_false_iff.mpr hselects
  refine ⟨fun field ↦ ⟨fun value ↦ Pattern.admits_of_mem_values (hcanonical field),
    Pattern.filter_values (hcanonical field), hselects field⟩, hfields, fun start limit ↦ ?_⟩
  rw [ne_eq, Matcher.search_eq_nothingSelected_iff (Matcher.withinDomains_ofExpression expression),
    hfields]
  exact Bool.false_ne_true

/-- Steps from a value on, a range, a list, a range between names and steps through a domain. -/
def fiveShapes : Expression :=
  ⟨.stepFrom 5 20, .range 9 17, .list (.ofList [1, 15]), .range 1 12, .step 2⟩

/-- A text of five shapes is read, and every field of it selects something. -/
theorem parse_fiveShapes_and_selects :
    parse "5/20 9-17 1,15,1 jan-DEC */2" = .ok fiveShapes ∧
      (Matcher.ofExpression fiveShapes).hasEmptyField = false := by
  have hparse : parse "5/20 9-17 1,15,1 jan-DEC */2" = .ok fiveShapes := by cbv
  exact ⟨hparse, (values_of_parse hparse).2.1⟩

end Expression

end Recurrence
