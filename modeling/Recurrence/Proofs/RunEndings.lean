import Recurrence.Command.Report
import Recurrence.Proofs.Underlining

/-!
How a run of the command ends, whatever reads its arguments and its date-times.

A run on options that go together has one of five endings (`Options.ending_run`): it asks for
nothing, its anchor, its expression or its window cannot be read, or it answers. The endings
exclude each other, since an expression that can be asked for is neither of a bad anchor nor of
a bad text, so each of them shows in the exit code (`Options.run_endings`). A window that cannot
be read is noticed only where there is an expression to list it for: without one the run ends
before the window is looked at (`Options.misuse_of_badWindow_alone`).

Where one of the switches for checking, showing and normalising is given, the first of them
decides, and the run answers about the expression alone.
-/

set_option autoImplicit false
set_option relaxedAutoImplicit false

namespace Recurrence.Command

open Recurrence.Calendar

/-- The report on an expression that cannot be read shows the illustration of it, on a line of
its own at the end. -/
theorem Report.errorText_rejected {status : Status} {diagnostic : Diagnostic}
    {illustration : String} (h : diagnostic.illustrate? = some illustration) :
    (Report.refusal status (.rejected diagnostic)).errorText = illustration ++ "\n" := by
  have htext : (Notice.rejected diagnostic).text =
      diagnostic.illustrate?.getD diagnostic.headline ++ "\n" := rfl
  simp [Report.errorText, Report.refusal, htext, h]

/-- The report on arguments that are rejected shows the text of the rejection. -/
theorem Report.errorText_misuse (status : Status) (text : String) :
    (Report.refusal status (.misuse text)).errorText = text := by
  have htext : (Notice.misuse text).text = text := rfl
  simp [Report.errorText, Report.refusal, htext]

namespace Surroundings

variable {surroundings : Surroundings} {arguments : List String}

theorem run_of_accepted {options : Options}
    (h : surroundings.readArguments arguments = .ok options) :
    surroundings.run arguments = options.run surroundings.readDateTime surroundings.present := by
  rw [run, h]

theorem run_of_rejected {text : String}
    (h : surroundings.readArguments arguments = .error (.rejected text)) :
    surroundings.run arguments = .refusal .misuse (.misuse text) := by
  rw [run, h]

end Surroundings

namespace Options

/-! ### Options that go together -/

/-- Options that go together. What a setting needs may be missing if something that excludes it
is given. -/
structure Consistent (options : Options) : Prop where
  start_excludes_count : options.start ≠ none → options.count = none
  rule_excludes_expression : options.rule ≠ none → options.expression = none
  rule_needs_anchor : options.rule ≠ none → options.anchor ≠ none
  stop_needs_start : options.stop ≠ none → options.start ≠ none ∨ options.count ≠ none
  anchor_needs_rule : options.anchor ≠ none → options.rule ≠ none ∨ options.expression ≠ none

/-! ### What is asked for, and what cannot be read -/

/-- Options ask for an expression: for the rule of a cadence from a date-time on, or for the
expression that a text writes down. -/
inductive AsksFor (options : Options) (reader : DateTimeReader) : Expression → Prop
  | rule {cadence : Cadence} {text : String} {anchor : DateTime}
    (hrule : options.rule = some cadence) (hanchor : options.anchor = some text)
    (hread : reader text = .ok anchor) : AsksFor options reader (.ofCadence cadence anchor)
  | text {text : String} {expression : Expression} (hrule : options.rule = none)
    (htext : options.expression = some text) (hparse : Expression.parse text = .ok expression) :
    AsksFor options reader expression

end Options

namespace DateTimeReader

variable {reader : DateTimeReader}

/-- The date-time that a text names, or none if there is no text. -/
inductive ReadsAs (reader : DateTimeReader) : Option String → Option DateTime → Prop
  | none : ReadsAs reader none none
  | some {text : String} {moment : DateTime} (hread : reader text = .ok moment) :
    ReadsAs reader (some text) (some moment)

/-- A text is given that names no date-time. -/
def Unreadable (reader : DateTimeReader) (text : Option String) : Prop :=
  ∃ found ∈ text, ∃ reason, reader found = .error reason

theorem readsAs_or_unreadable (reader : DateTimeReader) (text : Option String) :
    (∃ moment, reader.ReadsAs text moment) ∨ reader.Unreadable text := by
  cases text with
  | none => exact Or.inl ⟨none, .none⟩
  | some found =>
    cases hread : reader found with
    | error reason => exact Or.inr ⟨found, rfl, reason, hread⟩
    | ok moment => exact Or.inl ⟨some moment, .some hread⟩

theorem ReadsAs.not_unreadable {text : Option String} {moment : Option DateTime}
    (h : reader.ReadsAs text moment) : ¬ reader.Unreadable text := by
  intro hbad
  obtain ⟨found, hfound, reason, herror⟩ := hbad
  cases h with
  | none => cases hfound
  | some hread =>
    cases hfound
    rw [hread] at herror
    cases herror

end DateTimeReader

namespace Options

variable {options other : Options} {reader : DateTimeReader} {expression : Expression}
  {present later : DateTime}

/-- A rule is given with an anchor that is no date-time. -/
def BadAnchor (options : Options) (reader : DateTimeReader) : Prop :=
  options.rule ≠ none ∧ reader.Unreadable options.anchor

/-- A text is given that is no expression. -/
def BadExpression (options : Options) : Prop :=
  ∃ text ∈ options.expression, ∃ diagnostic, Expression.parse text = .error diagnostic

/-- The first of the switches for checking, showing and normalising that is given. -/
def deciding? (options : Options) : Option Switch :=
  [Switch.check, .parse, .encode].find? options.isOn

/-- A window is to be listed whose start, or whose end if it has one, is no date-time. -/
def BadWindow (options : Options) (reader : DateTimeReader) : Prop :=
  options.deciding? = none ∧ options.start ≠ none ∧
    (reader.Unreadable options.start ∨ reader.Unreadable options.stop)

namespace AsksFor

theorem given (h : options.AsksFor reader expression) :
    options.rule ≠ none ∨ options.expression ≠ none := by
  cases h with
  | rule hrule => exact Or.inl (by simp [hrule])
  | text _ htext => exact Or.inr (by simp [htext])

theorem not_badAnchor (h : options.AsksFor reader expression) : ¬ options.BadAnchor reader := by
  intro hbad
  obtain ⟨hrule, hanchor⟩ := hbad
  cases h with
  | rule _ hsome hread =>
    rw [hsome] at hanchor
    exact (DateTimeReader.ReadsAs.some hread).not_unreadable hanchor
  | text hnone => exact hrule hnone

theorem not_badExpression (hconsistent : options.Consistent)
    (h : options.AsksFor reader expression) : ¬ options.BadExpression := by
  intro hbad
  obtain ⟨text, htext, diagnostic, herror⟩ := hbad
  cases h with
  | rule hrule =>
    rw [hconsistent.rule_excludes_expression (by simp [hrule])] at htext
    cases htext
  | text _ hsome hparse =>
    rw [hsome] at htext
    cases htext
    rw [hparse] at herror
    cases herror

end AsksFor

/-! ### Windows -/

/-- A window between date-times lists the matches up to its end, and the first so many if it has
no end. -/
theorem range_of_readsAs {text : String} {start : DateTime} {bound : Option DateTime}
    (hstart : reader text = .ok start) (hbound : reader.ReadsAs options.stop bound) :
    options.range reader expression text =
      .ok (bound.elim ((expression.occurrences start none).take listingLimit).result.items
        fun stop ↦ (expression.between start stop).result) := by
  unfold range DateTimeReader.readSetting
  generalize options.stop = stop at hbound ⊢
  rw [hstart]
  cases hbound with
  | none => rfl
  | some hstop =>
    dsimp only [bind, Except.bind, Except.mapError]
    rw [hstop]
    rfl

/-- A window is refused for its start, or else for its end. -/
theorem range_of_unreadable {text : String}
    (h : reader.Unreadable (some text) ∨ reader.Unreadable options.stop) :
    ∃ setting reason, options.range reader expression text =
      .error (.refusal .failure (.badDateTime setting reason)) := by
  unfold range DateTimeReader.readSetting
  cases hstart : reader text with
  | error reason => exact ⟨.start, reason, rfl⟩
  | ok start =>
    rcases h with hbad | ⟨stop, hstop, reason, herror⟩
    · exact absurd hbad (DateTimeReader.ReadsAs.some hstart).not_unreadable
    · rw [hstop]
      dsimp only [bind, Except.bind, Except.mapError]
      rw [herror]
      exact ⟨.stop, reason, rfl⟩

/-! ### Endings -/

/-- How a run on options ends, and why it ends so. -/
inductive Ending (options : Options) (reader : DateTimeReader) : Report → Prop
  | noSubject (hrule : options.rule = none) (hexpression : options.expression = none) :
    Ending options reader (.refusal .misuse .noExpression)
  | badAnchor {text reason : String} (hrule : options.rule ≠ none)
    (hanchor : options.anchor = some text) (h : reader text = .error reason) :
    Ending options reader (.refusal .failure (.badDateTime .anchor reason))
  | badExpression {text : String} {diagnostic : Diagnostic}
    (htext : options.expression = some text) (h : Expression.parse text = .error diagnostic) :
    Ending options reader (.refusal .failure (.rejected diagnostic))
  | badWindow {expression : Expression} {setting : Setting} {reason : String}
    (hasks : options.AsksFor reader expression) (h : options.BadWindow reader) :
    Ending options reader (.refusal .failure (.badDateTime setting reason))
  | answer {expression : Expression} {output : String} {notices : List Notice}
    (hasks : options.AsksFor reader expression) (h : ¬ options.BadWindow reader) :
    Ending options reader ⟨.success, output, notices⟩

/-- The status of a listing is success, be it empty or not. -/
theorem status_reportListing (json : Bool) (empty : Notice) (moments : List CalendarMinute) :
    (reportListing json empty moments).status = .success := by
  cases moments <;> rfl

theorem status_upcoming (options : Options) (expression : Expression) (present : DateTime) :
    (options.upcoming expression present).status = .success := by
  unfold upcoming
  dsimp only
  split_ifs <;> exact status_reportListing _ _ _

theorem deciding?_eq_none_iff :
    options.deciding? = none ↔
      options.check = false ∧ options.parse = false ∧ options.encode = false := by
  simp [deciding?, isOn]

theorem deciding?_eq_some_iff {switch : Switch} :
    options.deciding? = some switch ↔
      switch = .check ∧ options.check = true ∨
      switch = .parse ∧ options.check = false ∧ options.parse = true ∨
      switch = .encode ∧ options.check = false ∧ options.parse = false ∧
        options.encode = true := by
  simp only [deciding?, List.find?_cons, List.find?_nil, isOn]
  cases options.check <;> cases options.parse <;> cases options.encode <;> simp [eq_comm]

/-- Where a switch decides, nothing but the expression counts. -/
theorem reportOn_of_deciding? {switch : Switch} (h : options.deciding? = some switch)
    (hother : other.deciding? = some switch) :
    other.reportOn reader later expression = options.reportOn reader present expression := by
  rw [deciding?_eq_some_iff] at h hother
  unfold reportOn
  rcases h with ⟨rfl, hcheck⟩ | ⟨rfl, hcheck, hparse⟩ | ⟨rfl, hcheck, hparse, hencode⟩
  · have hsame : other.check = true := by simpa using hother
    simp [hcheck, hsame]
  · have hsame : other.check = false ∧ other.parse = true := by simpa using hother
    simp [hcheck, hparse, hsame]
  · have hsame : other.check = false ∧ other.parse = false ∧ other.encode = true := by
      simpa using hother
    simp [hcheck, hparse, hencode, hsame]

/-- Where a switch decides, the run answers. -/
theorem exists_reportOn_eq_success {switch : Switch} (h : options.deciding? = some switch) :
    ∃ output, options.reportOn reader present expression = .success output := by
  rw [deciding?_eq_some_iff] at h
  unfold reportOn
  rcases h with ⟨rfl, hcheck⟩ | ⟨rfl, hcheck, hparse⟩ | ⟨rfl, hcheck, hparse, hencode⟩
  · simp [hcheck]
  · simp [hcheck, hparse]
  · simp [hcheck, hparse, hencode]

/-- Where no switch decides, the run is on a window if it has a start, else on what is next. -/
theorem reportOn_of_deciding?_eq_none (h : options.deciding? = none) :
    options.reportOn reader present expression = match options.start with
      | some start => match options.range reader expression start with
        | .ok moments => reportListing options.json .nothingInRange moments
        | .error report => report
      | none => options.upcoming expression present := by
  obtain ⟨hcheck, hparse, hencode⟩ := deciding?_eq_none_iff.mp h
  unfold reportOn
  rw [hcheck, hparse, hencode]
  rfl

/-- A run that succeeds is an answer, unless its window cannot be read. -/
theorem ending_of_success {report : Report} (hasks : options.AsksFor reader expression)
    (hwindow : ¬ options.BadWindow reader) (hsuccess : report.status = .success) :
    Ending options reader report := by
  obtain ⟨_, output, notices⟩ := report
  cases hsuccess
  exact .answer hasks hwindow

/-- A run on an expression fails on a window that cannot be read, and answers otherwise. -/
theorem ending_reportOn (hasks : options.AsksFor reader expression) (present : DateTime) :
    Ending options reader (options.reportOn reader present expression) := by
  cases hdeciding : options.deciding? with
  | some switch =>
    obtain ⟨output, houtput⟩ :
        ∃ output, options.reportOn reader present expression = .success output :=
      exists_reportOn_eq_success hdeciding
    rw [houtput]
    exact .answer hasks (by simp [BadWindow, hdeciding])
  | none =>
    rw [reportOn_of_deciding?_eq_none hdeciding]
    cases hstart : options.start with
    | none =>
      exact ending_of_success hasks (by simp [BadWindow, hstart])
        (status_upcoming options expression present)
    | some text =>
      dsimp only
      by_cases hbad : reader.Unreadable (some text) ∨ reader.Unreadable options.stop
      · obtain ⟨setting, reason, hrange⟩ : ∃ setting reason, options.range reader expression text =
            .error (.refusal .failure (.badDateTime setting reason)) :=
          range_of_unreadable hbad
        rw [hrange]
        exact .badWindow hasks ⟨hdeciding, by simp [hstart], by rwa [hstart]⟩
      · obtain ⟨hreadable, hstop⟩ := not_or.mp hbad
        obtain ⟨bound, hbound⟩ := (reader.readsAs_or_unreadable options.stop).resolve_right hstop
        obtain ⟨moment, hmoment⟩ :=
          (reader.readsAs_or_unreadable (some text)).resolve_right hreadable
        cases hmoment with
        | some hread =>
          rw [range_of_readsAs hread hbound]
          refine ending_of_success hasks ?_ (status_reportListing _ _ _)
          rw [BadWindow, hstart]
          exact fun h ↦ hbad h.2.2

/-- What the options ask for, if they go together: an expression, or why there is none. -/
theorem ending_run (h : options.Consistent) (reader : DateTimeReader) (present : DateTime) :
    Ending options reader (options.run reader present) := by
  unfold run chosen
  cases hrule : options.rule with
  | some cadence =>
    obtain ⟨text, hanchor⟩ := Option.ne_none_iff_exists'.mp (h.rule_needs_anchor (by simp [hrule]))
    rw [hanchor]
    dsimp only
    unfold DateTimeReader.readSetting
    cases hread : reader text with
    | error reason => exact .badAnchor (by simp [hrule]) hanchor hread
    | ok anchor => exact ending_reportOn (.rule hrule hanchor hread) present
  | none =>
    cases hexpression : options.expression with
    | none => exact .noSubject hrule hexpression
    | some text =>
      dsimp only
      cases hparse : Expression.parse text with
      | error diagnostic => exact .badExpression hexpression hparse
      | ok expression => exact ending_reportOn (.text hrule hexpression hparse) present

/-! ### Exit codes -/

namespace Ending

variable {report : Report}

theorem code_cases (h : Ending options reader report) :
    report.status.code = 0 ∨ report.status.code = 1 ∨ report.status.code = 2 := by
  cases h <;> simp [Report.refusal, Status.code]

theorem output_eq_empty (h : Ending options reader report) (hcode : report.status.code ≠ 0) :
    report.output = "" := by
  cases h with
  | answer => exact absurd rfl hcode
  | _ => rfl

/-- A run is a misuse where nothing is asked for. -/
theorem code_eq_two_iff (h : Ending options reader report) :
    report.status.code = 2 ↔ options.expression = none ∧ options.rule = none := by
  cases h with
  | noSubject hrule hexpression => exact iff_of_true rfl ⟨hexpression, hrule⟩
  | badAnchor hrule => exact iff_of_false nofun fun hnone ↦ hrule hnone.2
  | badExpression htext =>
    refine iff_of_false nofun fun hnone ↦ ?_
    rw [htext] at hnone
    cases hnone.1
  | badWindow hasks => exact iff_of_false nofun fun hnone ↦ hasks.given.elim (· hnone.2) (· hnone.1)
  | answer hasks => exact iff_of_false nofun fun hnone ↦ hasks.given.elim (· hnone.2) (· hnone.1)

/-- A run fails where what it asks for, or the window of what it asks for, cannot be read. -/
theorem code_eq_one_iff (hconsistent : options.Consistent) (h : Ending options reader report) :
    report.status.code = 1 ↔ options.BadAnchor reader ∨ options.BadExpression ∨
      (options.expression ≠ none ∨ options.rule ≠ none) ∧ options.BadWindow reader := by
  cases h with
  | noSubject hrule hexpression =>
    refine iff_of_false nofun fun hbad ↦ ?_
    rcases hbad with ⟨hgiven, -⟩ | ⟨text, htext, -⟩ | ⟨hgiven, -⟩
    · exact hgiven hrule
    · rw [hexpression] at htext
      cases htext
    · exact hgiven.elim (· hexpression) (· hrule)
  | badAnchor hrule hanchor herror =>
    exact iff_of_true rfl (Or.inl ⟨hrule, _, hanchor, _, herror⟩)
  | badExpression htext herror => exact iff_of_true rfl (Or.inr (Or.inl ⟨_, htext, _, herror⟩))
  | badWindow hasks hbad => exact iff_of_true rfl (Or.inr (Or.inr ⟨hasks.given.symm, hbad⟩))
  | answer hasks hwindow =>
    refine iff_of_false nofun fun hbad ↦ ?_
    rcases hbad with hanchor | hexpression | ⟨-, hbad⟩
    · exact hasks.not_badAnchor hanchor
    · exact hasks.not_badExpression hconsistent hexpression
    · exact hwindow hbad

/-- An expression that cannot be read is reported as such. -/
theorem eq_of_parse {text : String} {diagnostic : Diagnostic} (hconsistent : options.Consistent)
    (htext : options.expression = some text) (herror : Expression.parse text = .error diagnostic)
    (h : Ending options reader report) :
    report = .refusal .failure (.rejected diagnostic) := by
  have hbad : options.BadExpression := ⟨text, htext, diagnostic, herror⟩
  cases h with
  | noSubject _ hnone =>
    rw [htext] at hnone
    cases hnone
  | badAnchor hrule =>
    rw [hconsistent.rule_excludes_expression hrule] at htext
    cases htext
  | badExpression hother hparse =>
    rw [htext] at hother
    cases hother
    rw [herror] at hparse
    cases hparse
    rfl
  | badWindow hasks => exact absurd hbad (hasks.not_badExpression hconsistent)
  | answer hasks => exact absurd hbad (hasks.not_badExpression hconsistent)

end Ending

/-- Options that name the same rule, anchor and expression. -/
structure SameSubject (options other : Options) : Prop where
  rule_eq : other.rule = options.rule
  anchor_eq : other.anchor = options.anchor
  expression_eq : other.expression = options.expression

/-- Where the same switch decides about the same subject, runs are the same. -/
theorem run_of_deciding? {switch : Switch} (hsubject : options.SameSubject other)
    (h : options.deciding? = some switch) (hother : other.deciding? = some switch) :
    other.run reader later = options.run reader present := by
  have hchosen : other.chosen reader = options.chosen reader := by
    unfold chosen
    rw [hsubject.rule_eq, hsubject.anchor_eq, hsubject.expression_eq]
  unfold run
  rw [hchosen]
  cases options.chosen reader with
  | error report => rfl
  | ok expression => exact reportOn_of_deciding? h hother

/-- The run on arguments is the run on the options that they are read as. A run on options that go
together ends with code 0, 1 or 2, and prints an output with code 0 only. It ends with code 2
where neither an expression nor a rule is given, and with code 1 where the anchor of a rule is no
date-time, where the text of an expression cannot be read (then with the illustrated report), or
where something is asked for, no switch decides, and the start of a window or its end is no
date-time. Where a switch decides, only the rule with its anchor or the expression counts. -/
theorem run_endings (options : Options) (reader : DateTimeReader) (present : DateTime) :
    (∀ (surroundings : Surroundings) (arguments : List String),
      surroundings.readArguments arguments = .ok options →
        surroundings.run arguments =
          options.run surroundings.readDateTime surroundings.present) ∧
    (options.Consistent →
      ((options.run reader present).status.code = 0 ∨
        (options.run reader present).status.code = 1 ∨
        (options.run reader present).status.code = 2) ∧
      ((options.run reader present).status.code ≠ 0 →
        (options.run reader present).output = "") ∧
      ((options.run reader present).status.code = 2 ↔
        options.expression = none ∧ options.rule = none) ∧
      ((options.run reader present).status.code = 1 ↔
        options.BadAnchor reader ∨ options.BadExpression ∨
          (options.expression ≠ none ∨ options.rule ≠ none) ∧ options.BadWindow reader) ∧
      (∀ text diagnostic, options.expression = some text →
        Expression.parse text = .error diagnostic → ∃ illustration,
          diagnostic.illustrate? = some illustration ∧
            (options.run reader present).errorText = illustration ++ "\n")) ∧
    ∀ switch other later, options.deciding? = some switch → other.deciding? = some switch →
      options.SameSubject other → other.run reader later = options.run reader present := by
  refine ⟨?_, ?_, ?_⟩
  · intro surroundings arguments hread
    exact Surroundings.run_of_accepted hread
  · intro hconsistent
    have hending := ending_run hconsistent reader present
    refine ⟨hending.code_cases, hending.output_eq_empty, hending.code_eq_two_iff,
      hending.code_eq_one_iff hconsistent, ?_⟩
    intro text diagnostic htext herror
    obtain ⟨illustration, hillustration⟩ := Diagnostic.exists_illustrate?_of_parse herror
    refine ⟨illustration, hillustration, ?_⟩
    rw [hending.eq_of_parse hconsistent htext herror]
    exact Report.errorText_rejected hillustration
  · intro switch other later h hother hsubject
    exact run_of_deciding? hsubject h hother

/-- A window for a weekly rule whose end is no day of the calendar. -/
def badEnd : Options where
  rule := some .weekly
  anchor := some "2024-02-29T09:45"
  start := some "2024-02-29"
  stop := some "2024-02-30"
  json := true

/-- The window of a good rule fails for its end. -/
theorem failure_of_badEnd :
    badEnd.Consistent ∧
    (Command.run CalendarMinute.last.start ["--rule", "Weekly", "--anchor=2024-02-29T09:45",
      "--json", "--from", "2024-02-29", "--to=2024-02-30"]).status.code = 1 := by
  have hread : ofArguments ["--rule", "Weekly", "--anchor=2024-02-29T09:45", "--json", "--from",
      "2024-02-29", "--to=2024-02-30"] = .ok badEnd := by
    cbv
  have hconsistent : badEnd.Consistent := by
    constructor <;> simp [badEnd]
  have hstop : Surroundings.standardReader.Unreadable badEnd.stop := ⟨_, rfl, _, by cbv⟩
  have hgiven : badEnd.rule ≠ none := by decide
  have hstart : badEnd.start ≠ none := by decide
  obtain ⟨harguments, hendings, -⟩ :=
    run_endings badEnd Surroundings.standardReader CalendarMinute.last.start
  have hrun := harguments (.standard CalendarMinute.last.start) _ hread
  refine ⟨hconsistent, ?_⟩
  rw [Command.run, hrun]
  exact (hendings hconsistent).2.2.2.1.mpr
    (Or.inr (Or.inr ⟨Or.inr hgiven, rfl, hstart, Or.inr hstop⟩))

/-- A window that cannot be read is no failure where nothing is asked for: the run is a misuse. -/
theorem misuse_of_badWindow_alone :
    ofArguments ["--from=yesterday"] = .ok { start := some "yesterday" } ∧
    (∀ present, Command.run present ["--from=yesterday"] = .refusal .misuse .noExpression) ∧
    ¬ ∀ (options : Options) (reader : DateTimeReader) (present : DateTime), options.Consistent →
      ((options.run reader present).status.code = 1 ↔
        options.BadAnchor reader ∨ options.BadExpression ∨ options.BadWindow reader) := by
  have hread : ofArguments ["--from=yesterday"] = .ok { start := some "yesterday" } := by cbv
  have hstart : Surroundings.standardReader.Unreadable (some "yesterday") :=
    ⟨_, rfl, _, by cbv⟩
  have hgiven : some "yesterday" ≠ none := Option.some_ne_none _
  have hconsistent : Consistent { start := some "yesterday" } := by
    constructor <;> simp
  refine ⟨hread, fun present ↦ ?_, fun h ↦ ?_⟩
  · have hstandard : (Surroundings.standard present).readArguments ["--from=yesterday"] =
        .ok { start := some "yesterday" } := hread
    exact Surroundings.run_of_accepted hstandard
  · have hcode := (h { start := some "yesterday" } Surroundings.standardReader
      CalendarMinute.last.start hconsistent).mpr (Or.inr (Or.inr ⟨rfl, hgiven, Or.inl hstart⟩))
    cases hcode

end Options

end Recurrence.Command
