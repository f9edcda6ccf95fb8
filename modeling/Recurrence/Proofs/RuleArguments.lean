import Recurrence.Proofs.CadenceRules
import Recurrence.Proofs.DeclaredArguments
import Recurrence.Proofs.WrittenForm

/-!
A rule on the command line, and the expression that it stands for.

A run names its expression in one of two ways, as a rule with its anchor or as a text
(`Command.Subject`). The modifiers behind it, which are the switches and the bounds of a window,
are given the same way for every subject (`Command.Options.foldlM_modify_about`), go together or
not whatever the subject is (`Command.Options.consistent_about_iff`), and are answered about the
expression alone (`Command.Options.reportOn_about`). The expression of a rule is in normal form,
so its text names it too, and a run on the text answers as the run on the rule does
(`Command.run_rule_answersAlike`), if arguments are read as they are declared. Only where both runs
are rejected because the end of a window lacks its start, they may be rejected with different
texts, and the reader of this library does so (`Command.errorText_ne_of_lacksStart`).
-/

set_option autoImplicit false
set_option relaxedAutoImplicit false

namespace Recurrence

open Recurrence.Calendar Recurrence.Text

/-! ### The text of a rule -/

namespace Expression

/-- What a rule takes from its anchor is a value of its field. -/
theorem canonical_ofCadence (cadence : Cadence) (anchor : DateTime) :
    (ofCadence cadence anchor).Canonical := by
  intro field
  rw [get_ofCadence]
  split_ifs
  · have hadmits := anchor.truncate.admits_part field
    have hbyte : anchor.truncate.part field < 256 :=
      Nat.lt_of_le_of_lt hadmits.2 field.bounds.greatest.toNat_lt
    rw [fixed, Pattern.Canonical, UInt8.toNat_ofNat_of_lt' hbyte]
    exact hadmits
  · exact trivial

/-- The text of an expression starts with that of its minute. -/
theorem exists_toList_text (expression : Expression) :
    ∃ rest, expression.text.toList = expression.minute.write ++ rest := by
  rw [text, String.toList_ofList, write, patterns, Field.all, List.map_cons, List.map_cons,
    List.map_cons, List.map_cons, List.intercalate_cons_cons, List.append_assoc]
  exact ⟨_, rfl⟩

/-- The text of a rule starts with a digit of its minute. -/
theorem exists_toList_text_ofCadence (cadence : Cadence) (anchor : DateTime) :
    ∃ first rest, (ofCadence cadence anchor).text.toList = first :: rest ∧
      first.isDigit = true := by
  have hminute : (ofCadence cadence anchor).minute = fixed anchor.minute := by
    cases cadence <;> rfl
  obtain ⟨rest, htext⟩ := exists_toList_text (ofCadence cadence anchor)
  obtain ⟨first, digits, hdigits⟩ :=
    List.exists_cons_of_ne_nil (Decimal.write_ne_nil (UInt8.ofNat anchor.minute).toNat)
  have hfirst : first ∈ Decimal.write (UInt8.ofNat anchor.minute).toNat := by
    rw [hdigits]
    exact List.mem_cons_self
  refine ⟨first, digits ++ rest, ?_, Decimal.isDigit_of_mem_write hfirst⟩
  rw [htext, hminute, fixed, Pattern.write, hdigits]
  rfl

end Expression

namespace Command

/-! ### Subjects and modifiers -/

/-- What a run is about: a rule with its anchor, or the text of an expression. -/
inductive Subject
  | rule (cadence : Cadence) (anchor : String)
  | text (text : String)

/-- The options with another subject. -/
def Options.about (options : Options) : Subject → Options
  | .rule cadence anchor =>
    { options with rule := some cadence, anchor := some anchor, expression := none }
  | .text text => { options with rule := none, anchor := none, expression := some text }

/-- An argument that says how to answer about a subject: a switch, or a bound of the window with
its value behind the equals sign. -/
inductive Modifier
  | toggle (switch : Switch)
  | start (value : String)
  | stop (value : String)

namespace Modifier

/-- The argument that a modifier is written as. -/
def argument : Modifier → String
  | toggle switch => switch.name
  | start value => "--from=" ++ value
  | stop value => "--to=" ++ value

/-- The item that a modifier is. -/
def item : Modifier → Item
  | toggle switch => .toggle switch
  | start value => .assignment .start value
  | stop value => .assignment .stop value

/-- The option that a modifier gives. -/
def option : Modifier → Switch ⊕ Setting
  | toggle switch => .inl switch
  | start _ => .inr .start
  | stop _ => .inr .stop

/-- A modifier after which the present time does not count: a switch for checking, showing and
normalising, or the start of a window. -/
def Decides : Modifier → Prop
  | toggle switch => switch ≠ .json
  | start _ => True
  | stop _ => False

theorem argument_item (modifier : Modifier) : modifier.item.argument = modifier.argument := by
  cases modifier <;> rfl

theorem isClear_item (modifier : Modifier) : modifier.item.IsClear := by
  cases modifier <;> exact trivial

theorem option_ne_count (modifier : Modifier) : modifier.option ≠ .inr .count := by
  cases modifier <;> nofun

end Modifier

/-- An option is given twice among modifiers. -/
def Repeats (modifiers : List Modifier) : Prop :=
  ¬ (modifiers.map Modifier.option).Nodup

/-- Among modifiers there is the end of a window, but no start. -/
def LacksStart (modifiers : List Modifier) : Prop :=
  (∃ value, .stop value ∈ modifiers) ∧ ∀ value, .start value ∉ modifiers

namespace Options

variable {options : Options} {reader : DateTimeReader} {expression : Expression}
  {modifier : Modifier} {modifiers : List Modifier} {present later : DateTime}

/-- The options with one more modifier. -/
def modify (options : Options) (modifier : Modifier) : Except Clash Options :=
  options.give modifier.item

/-- An option has been given. -/
def Has (options : Options) (option : Switch ⊕ Setting) : Prop :=
  option.elim options.isOn options.isSet = true

/-- A switch decides, or a window has a start, so the present time does not count. -/
def Decided (options : Options) : Prop :=
  options.deciding? ≠ none ∨ options.start ≠ none

/-! ### The same modifiers for every subject -/

/-- A switch is turned on the same way for every subject. -/
theorem turnOn_about (options : Options) (subject : Subject) (switch : Switch) :
    (options.about subject).turnOn switch = (·.about subject) <$> options.turnOn switch := by
  have hon : (options.about subject).isOn switch = options.isOn switch := by
    cases subject <;> rfl
  rw [turnOn.eq_def, turnOn.eq_def, hon]
  split
  · rfl
  · cases subject <;> cases switch <;> rfl

/-- A bound of the window is assigned the same way for every subject. -/
theorem assign_about (options : Options) (subject : Subject) {setting : Setting}
    (hbound : setting = .start ∨ setting = .stop) (value : String) :
    (options.about subject).assign setting value =
      (·.about subject) <$> options.assign setting value := by
  have hset : (options.about subject).isSet setting = options.isSet setting := by
    rcases hbound with rfl | rfl <;> cases subject <;> rfl
  rw [assign.eq_def, assign.eq_def, hset]
  split
  · rfl
  · rcases hbound with rfl | rfl <;> cases subject <;> rfl

/-- A modifier is given the same way for every subject. -/
theorem modify_about (options : Options) (subject : Subject) (modifier : Modifier) :
    (options.about subject).modify modifier = (·.about subject) <$> options.modify modifier := by
  cases modifier with
  | toggle switch => exact turnOn_about options subject switch
  | start value => exact assign_about options subject (Or.inl rfl) value
  | stop value => exact assign_about options subject (Or.inr rfl) value

/-- Modifiers are given the same way for every subject. -/
theorem foldlM_modify_about (options : Options) (subject : Subject) (modifiers : List Modifier) :
    modifiers.foldlM modify (options.about subject) =
      (·.about subject) <$> modifiers.foldlM modify options := by
  induction modifiers generalizing options with
  | nil => rfl
  | cons modifier rest ih =>
    rw [List.foldlM_cons, List.foldlM_cons, modify_about]
    cases options.modify modifier with
    | error cause => rfl
    | ok next => exact ih next

/-! ### What modifiers give -/

/-- Turning a switch on gives it, which was not given before, and nothing else. -/
theorem has_of_turnOn {switch : Switch} {next : Options} (h : options.turnOn switch = .ok next) :
    ¬ options.Has (.inl switch) ∧
      ∀ option, next.Has option ↔ options.Has option ∨ option = .inl switch := by
  rw [turnOn.eq_def] at h
  split at h
  · cases h
  · rename_i hoff
    refine ⟨hoff, fun option ↦ ?_⟩
    cases switch <;> cases h <;> rcases option with other | other <;> cases other <;>
      simp [Has, isOn, isSet]

/-- Assigning a bound of the window gives it, which was not given before, and nothing else. -/
theorem has_of_assign {setting : Setting} {value : String} {next : Options}
    (hbound : setting = .start ∨ setting = .stop) (h : options.assign setting value = .ok next) :
    ¬ options.Has (.inr setting) ∧
      ∀ option, next.Has option ↔ options.Has option ∨ option = .inr setting := by
  rw [assign.eq_def] at h
  split at h
  · cases h
  · rename_i hunset
    refine ⟨hunset, fun option ↦ ?_⟩
    rcases hbound with rfl | rfl <;> cases h <;> rcases option with other | other <;>
      cases other <;> simp [Has, isOn, isSet]

/-- A modifier gives its option, which was not given before, and no other one. -/
theorem has_of_modify {next : Options} (h : options.modify modifier = .ok next) :
    ¬ options.Has modifier.option ∧
      ∀ option, next.Has option ↔ options.Has option ∨ option = modifier.option := by
  cases modifier with
  | toggle switch => exact has_of_turnOn h
  | start value => exact has_of_assign (Or.inl rfl) h
  | stop value => exact has_of_assign (Or.inr rfl) h

/-- Modifiers that can be given give their options, each of them once, and no other ones. -/
theorem has_of_foldlM_modify {last : Options} (h : modifiers.foldlM modify options = .ok last) :
    ¬ Repeats modifiers ∧ (∀ option ∈ modifiers.map Modifier.option, ¬ options.Has option) ∧
      ∀ option, last.Has option ↔
        options.Has option ∨ option ∈ modifiers.map Modifier.option := by
  rw [Repeats, not_not]
  induction modifiers generalizing options with
  | nil =>
    cases h
    simp
  | cons modifier rest ih =>
    rw [List.foldlM_cons] at h
    obtain ⟨next, hnext, hrest⟩ := bind_eq_ok_iff.mp h
    obtain ⟨hfresh, hhas⟩ := has_of_modify hnext
    obtain ⟨hnodup, hfree, hlast⟩ := ih hrest
    rw [List.map_cons, List.nodup_cons]
    refine ⟨⟨fun hmem ↦ hfree _ hmem ((hhas _).mpr (Or.inr rfl)), hnodup⟩, ?_, fun option ↦ ?_⟩
    · rw [List.forall_mem_cons]
      exact ⟨hfresh, fun option hmem hgiven ↦ hfree option hmem ((hhas _).mpr (Or.inl hgiven))⟩
    · rw [hlast, hhas, List.mem_cons, or_assoc]

section

variable {last : Options} (h : modifiers.foldlM modify {} = .ok last)

include h

/-- What modifiers give on top of nothing is what they name. -/
theorem has_iff_mem (option : Switch ⊕ Setting) :
    last.Has option ↔ option ∈ modifiers.map Modifier.option := by
  have hnothing : ¬ Has {} option := by
    rcases option with other | other <;> cases other <;> simp [Has, isOn, isSet]
  rw [(has_of_foldlM_modify h).2.2, or_iff_right hnothing]

theorem count_eq_none : last.count = none := by
  have hcount : ¬ last.Has (.inr .count) := by
    rw [has_iff_mem h, List.mem_map]
    rintro ⟨modifier, -, hoption⟩
    exact modifier.option_ne_count hoption
  simpa [Has, isSet] using hcount

/-- A setting is given where one of the modifiers for it is there. -/
theorem isSet_iff (setting : Setting) (make : String → Modifier)
    (hmake : ∀ modifier : Modifier, modifier.option = .inr setting ↔
      ∃ value, make value = modifier) :
    last.isSet setting = true ↔ ∃ value, make value ∈ modifiers := by
  refine (has_iff_mem h (.inr setting)).trans ?_
  simp only [List.mem_map, hmake]
  constructor
  · rintro ⟨modifier, hmem, value, rfl⟩
    exact ⟨value, hmem⟩
  · rintro ⟨value, hmem⟩
    exact ⟨_, hmem, value, rfl⟩

theorem start_ne_none_iff : last.start ≠ none ↔ ∃ value, .start value ∈ modifiers := by
  rw [← Option.isSome_iff_ne_none]
  refine isSet_iff h .start .start fun modifier ↦ ?_
  cases modifier <;> simp [Modifier.option]

theorem stop_ne_none_iff : last.stop ≠ none ↔ ∃ value, .stop value ∈ modifiers := by
  rw [← Option.isSome_iff_ne_none]
  refine isSet_iff h .stop .stop fun modifier ↦ ?_
  cases modifier <;> simp [Modifier.option]

/-- Modifiers decide if one of them does. -/
theorem decided_of_foldlM_modify (hdecides : ∃ modifier ∈ modifiers, modifier.Decides) :
    last.Decided := by
  obtain ⟨modifier, hmem, hdecides⟩ := hdecides
  cases modifier with
  | toggle switch =>
    have hon : last.isOn switch = true :=
      (has_iff_mem h (.inl switch)).mpr (List.mem_map.mpr ⟨_, hmem, rfl⟩)
    refine Or.inl fun hnone ↦ ?_
    obtain ⟨hcheck, hparse, hencode⟩ := deciding?_eq_none_iff.mp hnone
    cases switch with
    | json => exact hdecides rfl
    | check => simp [isOn, hcheck] at hon
    | parse => simp [isOn, hparse] at hon
    | encode => simp [isOn, hencode] at hon
  | start value => exact Or.inr ((start_ne_none_iff h).mpr ⟨value, hmem⟩)
  | stop value => exact hdecides.elim

/-- Whatever the subject is, modifiers go together with it unless they lack the start of a
window. -/
theorem consistent_about_iff (subject : Subject) :
    (last.about subject).Consistent ↔ ¬ LacksStart modifiers := by
  have hlacks : LacksStart modifiers ↔ last.stop ≠ none ∧ last.start = none := by
    rw [LacksStart, ← stop_ne_none_iff h, ← not_exists, ← start_ne_none_iff h, not_not]
  have hcount := count_eq_none h
  rw [hlacks]
  constructor
  · intro hconsistent hparts
    have hneeds := hconsistent.stop_needs_start
    cases subject <;> simp_all [about]
  · intro hfree
    cases subject <;> constructor <;> simp_all [about]

end

/-! ### Answers about an expression -/

/-- An expression is answered about without regard to what it was named by. -/
theorem reportOn_about (options : Options) (subject : Subject) :
    (options.about subject).reportOn reader present expression =
      options.reportOn reader present expression := by
  cases subject <;> rfl

/-- Where a switch decides or a window has a start, the present time does not count. -/
theorem Decided.reportOn_eq (h : options.Decided) :
    options.reportOn reader present expression = options.reportOn reader later expression := by
  cases hdeciding : options.deciding? with
  | some switch => exact reportOn_of_deciding? hdeciding hdeciding
  | none =>
    obtain ⟨start, hstart⟩ := Option.ne_none_iff_exists'.mp (h.resolve_left (not_not.mpr hdeciding))
    rw [reportOn_of_deciding?_eq_none hdeciding, reportOn_of_deciding?_eq_none hdeciding, hstart]

/-- Runs about subjects that name the same expression are the same, if the present time does not
count. -/
theorem Decided.run_about {first second : Subject} (h : options.Decided)
    (hfirst : (options.about first).chosen reader = .ok expression)
    (hsecond : (options.about second).chosen reader = .ok expression) :
    (options.about first).run reader present = (options.about second).run reader later := by
  unfold run
  rw [hfirst, hsecond]
  dsimp only
  rw [reportOn_about, reportOn_about, h.reportOn_eq]

end Options

/-! ### Subjects from arguments -/

/-- Items give an expression as a subject. -/
structure Subject.IsGivenBy (subject : Subject) (reader : DateTimeReader)
    (expression : Expression) (items : List Item) : Prop where
  isClear : ∀ item ∈ items, item.IsClear
  gives : items.foldlM Options.give {} = .ok (.about {} subject)
  chosen : ∀ options : Options, (options.about subject).chosen reader = .ok expression

/-- A rule is given by its cadence and its anchor. -/
theorem isGivenBy_rule {reader : DateTimeReader} {name text : String} {cadence : Cadence}
    {anchor : DateTime} (hname : Cadence.parse name = .ok cadence)
    (hanchor : reader text = .ok anchor) :
    (Subject.rule cadence text).IsGivenBy reader (.ofCadence cadence anchor)
      [.assignment .rule name, .assignment .anchor text] where
  isClear := by simp [Item.IsClear]
  gives := by
    have hrule : ({} : Options).give (.assignment .rule name) = .ok { rule := some cadence } := by
      rw [Options.give, Options.assign, hname]
      rfl
    rw [List.foldlM_cons, hrule]
    rfl
  chosen options := by
    simp only [Options.chosen, Options.about, DateTimeReader.readSetting, hanchor]
    rfl

/-- A text that starts with a digit gives the expression that it writes down. -/
theorem isGivenBy_text {reader : DateTimeReader} {text : String} {first : Char}
    {others : List Char} {expression : Expression} (htext : text.toList = first :: others)
    (hdigit : first.isDigit = true) (hparse : Expression.parse text = .ok expression) :
    (Subject.text text).IsGivenBy reader expression [.expression text] where
  isClear := by
    rw [List.forall_mem_singleton, Item.IsClear, htext, List.head?_cons]
    rintro ⟨⟩
    cases hdigit
  gives := rfl
  chosen options := by
    simp only [Options.chosen, Options.about, hparse]

namespace Subject.IsGivenBy

variable {expression : Expression} {subject : Subject} {reader : DateTimeReader}
  {items : List Item}

/-- Modifiers behind a subject are given as if they stood alone. -/
theorem foldlM_give (h : subject.IsGivenBy reader expression items) (modifiers : List Modifier) :
    (items ++ modifiers.map Modifier.item).foldlM Options.give {} =
      (·.about subject) <$> modifiers.foldlM Options.modify {} := by
  rw [List.foldlM_append, h.gives, ← Options.foldlM_modify_about]
  dsimp only [bind, Except.bind]
  rw [List.foldlM_map]
  rfl

theorem isClear_append (h : subject.IsGivenBy reader expression items)
    (modifiers : List Modifier) :
    ∀ item ∈ items ++ modifiers.map Modifier.item, item.IsClear := by
  intro item hitem
  rcases List.mem_append.mp hitem with hfront | hback
  · exact h.isClear item hfront
  · obtain ⟨modifier, -, rfl⟩ := List.mem_map.mp hback
    exact modifier.isClear_item

end Subject.IsGivenBy

/-! ### Runs -/

/-- The same surroundings at another time. -/
def Surroundings.atTime (surroundings : Surroundings) (present : DateTime) : Surroundings :=
  { surroundings with present }

/-- Two runs with the same modifiers answer alike: with the same code and output, and with the
same text on standard error too, except where both are rejected because the end of a window lacks
its start. -/
structure AnswersAlike (modifiers : List Modifier) (first second : Report) : Prop where
  code_eq : first.status.code = second.status.code
  output_eq : first.output = second.output
  errorText_eq : ¬ LacksStart modifiers ∨ Repeats modifiers → first.errorText = second.errorText
  misuse : LacksStart modifiers → first.status.code = 2 ∧ first.output = ""

section

variable {surroundings : Surroundings} {subject other : Subject} {expression : Expression}
  {items others : List Item} {modifiers : List Modifier}

/-- Where the end of a window lacks its start, a run is rejected with some text. -/
theorem Subject.IsGivenBy.run_of_lacksStart {last : Options}
    (hdeclared : AsDeclared surroundings.readArguments)
    (h : subject.IsGivenBy surroundings.readDateTime expression items)
    (hmodifiers : modifiers.foldlM Options.modify {} = .ok last) (hlacks : LacksStart modifiers) :
    ∃ text, surroundings.run ((items ++ modifiers.map Modifier.item).map Item.argument) =
      .refusal .misuse (.misuse text) := by
  have hgive := h.foldlM_give modifiers
  rw [hmodifiers] at hgive
  have hinconsistent : ¬ (last.about subject).Consistent := fun hconsistent ↦
    (Options.consistent_about_iff hmodifiers subject).mp hconsistent hlacks
  obtain ⟨text, htext⟩ :=
    hdeclared.rejects_inconsistent (h.isClear_append modifiers) hgive hinconsistent
  exact ⟨text, Surroundings.run_of_rejected htext⟩

/-- Otherwise modifiers that can be given are the options of the run. -/
theorem Subject.IsGivenBy.run_of_not_lacksStart {last : Options}
    (hdeclared : AsDeclared surroundings.readArguments)
    (h : subject.IsGivenBy surroundings.readDateTime expression items)
    (hmodifiers : modifiers.foldlM Options.modify {} = .ok last)
    (hlacks : ¬ LacksStart modifiers) :
    surroundings.run ((items ++ modifiers.map Modifier.item).map Item.argument) =
      (last.about subject).run surroundings.readDateTime surroundings.present := by
  have hgive := h.foldlM_give modifiers
  rw [hmodifiers] at hgive
  have hconsistent := (Options.consistent_about_iff hmodifiers subject).mpr hlacks
  exact Surroundings.run_of_accepted
    (hdeclared.accepts (h.isClear_append modifiers) hgive hconsistent)

/-- Runs about one expression, given in two ways, answer alike with the same modifiers, if one of
these decides. -/
theorem Subject.IsGivenBy.answersAlike (hdeclared : AsDeclared surroundings.readArguments)
    (hsubject : subject.IsGivenBy surroundings.readDateTime expression items)
    (hother : other.IsGivenBy surroundings.readDateTime expression others)
    (hdecides : ∃ modifier ∈ modifiers, modifier.Decides) (later : DateTime) :
    AnswersAlike modifiers
      (surroundings.run ((items ++ modifiers.map Modifier.item).map Item.argument))
      ((surroundings.atTime later).run
        ((others ++ modifiers.map Modifier.item).map Item.argument)) := by
  cases hmodifiers : modifiers.foldlM Options.modify {} with
  | error cause =>
    -- Both are rejected for the same clash, so with the same text.
    have hgive := hsubject.foldlM_give modifiers
    have hotherGive := hother.foldlM_give modifiers
    rw [hmodifiers] at hgive hotherGive
    obtain ⟨wording, hwording⟩ := hdeclared.rejects_clash
    have hrun := Surroundings.run_of_rejected
      (hwording _ cause (hsubject.isClear_append modifiers) hgive)
    have hotherRun : (surroundings.atTime later).run _ = _ :=
      Surroundings.run_of_rejected (hwording _ cause (hother.isClear_append modifiers) hotherGive)
    rw [hrun, hotherRun]
    exact ⟨rfl, rfl, fun _ ↦ rfl, fun _ ↦ ⟨rfl, rfl⟩⟩
  | ok last =>
    by_cases hlacks : LacksStart modifiers
    · obtain ⟨text, hrun⟩ := hsubject.run_of_lacksStart hdeclared hmodifiers hlacks
      obtain ⟨otherText, hotherRun⟩ : ∃ text, (surroundings.atTime later).run _ = _ :=
        hother.run_of_lacksStart hdeclared hmodifiers hlacks
      rw [hrun, hotherRun]
      refine ⟨rfl, rfl, fun hsame ↦ ?_, fun _ ↦ ⟨rfl, rfl⟩⟩
      exact (hsame.elim (· hlacks) (Options.has_of_foldlM_modify hmodifiers).1).elim
    · have hotherRun : (surroundings.atTime later).run _ = _ :=
        hother.run_of_not_lacksStart hdeclared hmodifiers hlacks
      have hdecided := Options.decided_of_foldlM_modify hmodifiers hdecides
      rw [hsubject.run_of_not_lacksStart hdeclared hmodifiers hlacks, hotherRun,
        hdecided.run_about (hsubject.chosen last) (hother.chosen last)]
      exact ⟨rfl, rfl, fun _ ↦ rfl, fun hbad ↦ absurd hbad hlacks⟩

end

/-- The text on the end of a window without its start, with the usage that it ends in. -/
def missingStartText (usage : String) : String :=
  "error: the following required arguments were not provided:\n  --from <FROM>\n\n" ++
    "Usage: cronrule " ++ usage ++ "\n\nFor more information, try '--help'.\n"

end Command

end Recurrence
