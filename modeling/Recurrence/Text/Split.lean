/-!
A text is cut in two at the first occurrence of a separator. The cut exists exactly
when the separator occurs, and the part before it is free of the separator
(`cut?_eq_some_iff`, `cut?_eq_none_iff`).
-/

set_option autoImplicit false
set_option relaxedAutoImplicit false

namespace Recurrence.Text

/-- The parts before and after the first occurrence of a separator. -/
def cut? (separator : Char) : List Char → Option (List Char × List Char)
  | [] => none
  | character :: rest =>
    if character = separator then
      some ([], rest)
    else
      (cut? separator rest).map fun parts ↦ (character :: parts.1, parts.2)

theorem cut?_eq_none_iff {separator : Char} {text : List Char} :
    cut? separator text = none ↔ separator ∉ text := by
  induction text with
  | nil => simp [cut?]
  | cons character rest ih =>
    by_cases h : character = separator
    · simp [cut?, h]
    · simp [cut?, h, ih, Ne.symm h]

/-- A text is cut at its first separator and nowhere else. -/
theorem cut?_eq_some_iff {separator : Char} {text before after : List Char} :
    cut? separator text = some (before, after) ↔
      text = before ++ separator :: after ∧ separator ∉ before := by
  induction text generalizing before with
  | nil => simp [cut?]
  | cons character rest ih =>
    by_cases h : character = separator
    · subst h
      cases before with
      | nil => simp [cut?, eq_comm]
      | cons head tail =>
        simp only [cut?, ↓reduceIte, Option.some.injEq, Prod.mk.injEq, List.cons_append,
          List.cons.injEq, List.mem_cons, not_or]
        constructor
        · intro heq
          cases heq.1
        · intro heq
          exact absurd heq.1.1 heq.2.1
    · cases before with
      | nil => simp [cut?, h]
      | cons head tail =>
        simp only [cut?, h, ↓reduceIte, Option.map_eq_some_iff, Prod.exists, Prod.mk.injEq,
          List.cons.injEq, List.cons_append, List.mem_cons, not_or]
        constructor
        · rintro ⟨front, back, hcut, ⟨rfl, rfl⟩, rfl⟩
          exact ⟨⟨rfl, (ih.mp hcut).1⟩, Ne.symm h, (ih.mp hcut).2⟩
        · rintro ⟨⟨rfl, hrest⟩, _, htail⟩
          exact ⟨tail, after, ih.mpr ⟨hrest, htail⟩, ⟨rfl, rfl⟩, rfl⟩

end Recurrence.Text
