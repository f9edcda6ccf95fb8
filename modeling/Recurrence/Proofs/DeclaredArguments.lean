import Recurrence.Proofs.RunEndings

/-!
What is relied on about the reading of arguments.

Arguments are items: the expression, options that stand alone, and settings with their values
behind an equals sign. A reader reads them as declared (`AsDeclared`) if it takes the items one
after the other, none of them twice and each with a value that it takes, and then accepts options
that go together and no others. Nothing is said about the wording of a rejection, only that items
which cannot be given are rejected for the first clash alone, whatever stands beside it.

The reader of this library reads arguments so (`asDeclared_ofArguments`).
-/

set_option autoImplicit false
set_option relaxedAutoImplicit false

namespace Recurrence.Command

open Recurrence.Text

/-! ### Items -/

/-- One thing that arguments give. -/
inductive Item
  | expression (text : String)
  | toggle (switch : Switch)
  | assignment (setting : Setting) (value : String)

namespace Item

/-- The argument that an item is written as. -/
def argument : Item → String
  | expression text => text
  | toggle switch => switch.name
  | assignment setting value => setting.name ++ "=" ++ value

/-- An item is not taken for another one: an expression does not start with a hyphen. -/
def IsClear : Item → Prop
  | expression text => text.toList.head? ≠ some '-'
  | _ => True

end Item

/-- The options with one more item. -/
def Options.give (options : Options) : Item → Except Clash Options
  | .expression text => options.setExpression text
  | .toggle switch => options.turnOn switch
  | .assignment setting value => options.assign setting value

/-- Arguments are read as the options are declared. -/
structure AsDeclared (readArguments : List String → Except Interruption Options) : Prop where
  /-- Items that can be given and go together are accepted. -/
  accepts {items : List Item} {options : Options} (hclear : ∀ item ∈ items, item.IsClear)
    (hgiven : items.foldlM Options.give {} = .ok options) (h : options.Consistent) :
    readArguments (items.map Item.argument) = .ok options
  /-- Items of which one cannot be given are rejected with a text about the first clash alone. -/
  rejects_clash : ∃ wording : Clash → String, ∀ (items : List Item) (cause : Clash),
    (∀ item ∈ items, item.IsClear) → items.foldlM Options.give {} = .error cause →
      readArguments (items.map Item.argument) = .error (.rejected (wording cause))
  /-- Items that do not go together are rejected with some text. -/
  rejects_inconsistent {items : List Item} {options : Options}
    (hclear : ∀ item ∈ items, item.IsClear)
    (hgiven : items.foldlM Options.give {} = .ok options) (h : ¬ options.Consistent) :
    ∃ text, readArguments (items.map Item.argument) = .error (.rejected text)

/-! ### Arguments by their spelling -/

namespace Argument

/-- An option with its value behind the equals sign. -/
theorem ofText_assignment (setting : Setting) (value : String) :
    ofText (setting.name ++ "=" ++ value) = .ok (.assignment setting (some value)) := by
  obtain ⟨first, rest, hname, hequals, hfound⟩ : ∃ first rest,
      setting.name.toList = '-' :: '-' :: first :: rest ∧ '=' ∉ first :: rest ∧
        ofLongName? (first :: rest) = some (.assignment setting none) := by
    cases setting <;> exact ⟨_, _, rfl, by decide, by cbv⟩
  have hwhole : (setting.name ++ "=" ++ value).toList =
      '-' :: '-' :: first :: (rest ++ '=' :: value.toList) := by
    simp [hname]
  have hcut : cut? '=' (first :: (rest ++ '=' :: value.toList)) =
      some (first :: rest, value.toList) :=
    cut?_eq_some_iff.mpr ⟨rfl, hequals⟩
  unfold ofText
  rw [hwhole]
  simp only [hcut, ofLong, hfound]
  rw [Option.map_some, String.ofList_toList]

/-- An option that stands alone. -/
theorem ofText_toggle (switch : Switch) : ofText switch.name = .ok (.toggle switch) := by
  cases switch <;> cbv

/-- What does not start with a hyphen is no option. -/
theorem ofText_of_head? {whole : String} (h : whole.toList.head? ≠ some '-') :
    ofText whole = .ok (.plain whole) := by
  unfold ofText
  generalize whole.toList = letters at h
  cases letters with
  | nil => rfl
  | cons first rest =>
    have hhyphen : first ≠ '-' := fun hfirst ↦ h (congrArg some hfirst)
    simp [hhyphen]

end Argument

/-! ### Items one after the other -/

section

variable {item : Item} {items : List Item} {options : Options}

theorem readArguments_argument (h : item.IsClear) (options : Options) (rest : List String) :
    readArguments options (item.argument :: rest) =
      orReject (options.give item) >>= (readArguments · rest) := by
  cases item with
  | expression text =>
    rw [Item.argument, readArguments, Argument.ofText_of_head? h]
    rfl
  | toggle switch =>
    rw [Item.argument, readArguments, Argument.ofText_toggle]
    rfl
  | assignment setting value =>
    rw [Item.argument, readArguments, Argument.ofText_assignment]
    rfl

/-- Items are read as they are given, up to the first clash. -/
theorem readArguments_items (h : ∀ item ∈ items, item.IsClear) (options : Options) :
    readArguments options (items.map Item.argument) =
      orReject (items.foldlM Options.give options) := by
  induction items generalizing options with
  | nil => rfl
  | cons item rest ih =>
    obtain ⟨hitem, hrest⟩ := List.forall_mem_cons.mp h
    rw [List.map_cons, readArguments_argument hitem, List.foldlM_cons]
    cases options.give item with
    | error cause => rfl
    | ok next => exact ih hrest next

/-- Options are no misuse exactly where they go together. -/
theorem Options.misuse?_eq_none_iff : options.misuse? = none ↔ options.Consistent := by
  unfold misuse?
  constructor
  · intro h
    split_ifs at h with hcount hexpression hanchor hstart hrule
    simp only [Bool.and_eq_true, Option.isSome_iff_ne_none, Option.isNone_iff_eq_none, not_and,
      and_imp, not_not] at hcount hexpression hanchor hstart hrule
    exact ⟨hcount, hexpression, hanchor, fun hstop ↦ by tauto, fun h ↦ by tauto⟩
  · intro h
    obtain ⟨hcount, hexpression, hanchor, hstart, hrule⟩ := h
    rw [if_neg, if_neg, if_neg, if_neg, if_neg]
    all_goals
      simp only [Bool.and_eq_true, Option.isSome_iff_ne_none, Option.isNone_iff_eq_none]
      tauto

end

/-- The reader of this library reads arguments as the options are declared. -/
theorem asDeclared_ofArguments : AsDeclared Options.ofArguments where
  accepts {items options} hclear hgiven h := by
    rw [Options.ofArguments, readArguments_items hclear, hgiven]
    dsimp only [orReject, Except.mapError, bind, Except.bind]
    rw [Options.misuse?_eq_none_iff.mpr h]
    rfl
  rejects_clash := by
    refine ⟨fun cause ↦ (Misuse.clash cause).text, fun items cause hclear hclash ↦ ?_⟩
    rw [Options.ofArguments, readArguments_items hclear, hclash]
    rfl
  rejects_inconsistent {items options} hclear hgiven h := by
    obtain ⟨cause, hcause⟩ :=
      Option.ne_none_iff_exists'.mp (Options.misuse?_eq_none_iff.not.mpr h)
    refine ⟨cause.text, ?_⟩
    rw [Options.ofArguments, readArguments_items hclear, hgiven]
    dsimp only [orReject, Except.mapError, bind, Except.bind]
    rw [hcause]

end Recurrence.Command
