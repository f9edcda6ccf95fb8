/-!
Text laid out in a column: cut to a greatest length, then filled with spaces up to
a least width on one side or on both (`layOut_spec`), so that nothing that is shown is
cut off by the width (`length_layOut`).
-/

set_option autoImplicit false
set_option relaxedAutoImplicit false

namespace Recurrence.Text

/-- Where a text stands in a column that is wider than it. -/
inductive Alignment
  | left
  | right
  | center
deriving DecidableEq

/-- A column: its least width, the place of the text in it, and the most characters
that are shown of the text. -/
structure Column where
  width : Nat := 0
  alignment : Alignment := .left
  limit : Option Nat := none
deriving DecidableEq

namespace Column

/-- The spaces before the text, out of those that are to spare; centred text has the
odd one behind it. -/
def leading (column : Column) (spare : Nat) : Nat :=
  match column.alignment with
  | .left => 0
  | .right => spare
  | .center => spare / 2

/-- The characters of a text that the column shows. -/
def shown (column : Column) (text : String) : List Char :=
  match column.limit with
  | none => text.toList
  | some limit => text.toList.take limit

/-- The text as the column shows it. -/
def layOut (column : Column) (text : String) : String :=
  let shown := column.shown text
  let spare := column.width - shown.length
  let before := column.leading spare
  String.ofList (List.replicate before ' ' ++ shown ++ List.replicate (spare - before) ' ')

theorem leading_le (column : Column) (spare : Nat) : column.leading spare ≤ spare := by
  unfold leading
  split <;> omega

/-- What is shown of a text stands between spaces that fill the column up to its width: all
of them behind it, all before it, or as many before it as behind it, up to one. -/
theorem layOut_spec (column : Column) (text : String) :
    ∃ before after, (column.layOut text).toList =
        List.replicate before ' ' ++ column.shown text ++ List.replicate after ' ' ∧
      before + after = column.width - (column.shown text).length ∧
      match column.alignment with
      | .left => before = 0
      | .right => after = 0
      | .center => before ≤ after ∧ after ≤ before + 1 := by
  refine ⟨_, _, String.toList_ofList, Nat.add_sub_cancel' (leading_le _ _), ?_⟩
  generalize column.width - (column.shown text).length = spare
  unfold leading
  cases column.alignment with
  | left => rfl
  | right => exact Nat.sub_self spare
  | center =>
    dsimp only
    omega

/-- A column without a least width and a greatest length shows a text as it is. -/
@[simp]
theorem layOut_default (text : String) : Column.layOut {} text = text := by
  have hleading : Column.leading {} 0 = 0 := rfl
  simp [layOut, shown, hleading]

/-- A column is as wide as it should be, and wider where more of the text is shown. -/
theorem length_layOut (column : Column) (text : String) :
    (column.layOut text).toList.length = max column.width (column.shown text).length := by
  obtain ⟨before, after, htext, hspaces, -⟩ := column.layOut_spec text
  rw [htext, List.length_append, List.length_append, List.length_replicate,
    List.length_replicate]
  omega

end Column

end Recurrence.Text
