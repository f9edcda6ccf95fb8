import Recurrence.Proofs.MinuteTexts
import Recurrence.Proofs.PatternGrammar
import Recurrence.Proofs.RunEndings
import Recurrence.Proofs.Windows

/-!
What a window shows.

The minutes of a window are those that its expression selects, in order, and only the first
hundred if the window has no end (`Command.shown`). None of the characters of a minute ends a line
or is escaped between quotes (`isPlain_of_mem_text`). So a listing in text has one line for each
minute, a listing in JSON has one line with the array of the same texts
(`Command.isListing_reportListing`), and a run on a window shows one of them, or a notice if there
is nothing to show (`Command.isListing_run_window`). Different minutes have different texts, so a
listing tells which minutes it shows.
-/

set_option autoImplicit false
set_option relaxedAutoImplicit false

namespace Recurrence

open Recurrence.Calendar Recurrence.Text

/-! ### Texts in an array -/

/-- A character that stands for itself between the quotes of a JSON text. -/
def IsPlain (c : Char) : Prop :=
  0x20 ≤ c.toNat ∧ c ≠ '"' ∧ c ≠ '\\'

theorem IsPlain.ne_lineFeed {c : Char} (h : IsPlain c) : c ≠ '\n' := by
  rintro rfl
  exact absurd h.1 (by decide)

/-- The characters of a minute stand for themselves. -/
theorem isPlain_of_mem_text {moment : CalendarMinute} {c : Char} (h : c ∈ moment.text.toList) :
    IsPlain c := by
  have hsigns : ∀ sign ∈ ['-', 'T', ':'], 0x20 ≤ sign.toNat ∧ sign ≠ '"' ∧ sign ≠ '\\' := by
    simp
  rcases CalendarMinute.mem_text h with hdigit | hsign
  · have hlow := (Char.isDigit_iff_toNat.mp hdigit).1
    refine ⟨Nat.le_trans (by decide) hlow, ?_, ?_⟩
    · rintro rfl
      cases hdigit
    · rintro rfl
      cases hdigit
  · exact hsigns c hsign

namespace Document

/-- A plain character is not escaped. -/
theorem escape_of_isPlain {c : Char} (h : IsPlain c) : escape c = [c] := by
  obtain ⟨hlow, hquote, hbackslash⟩ := h
  have hcontrol {control : Char} (hcontrol : control.toNat < 0x20) : c ≠ control := by
    rintro rfl
    omega
  rw [escape, if_neg hquote, if_neg hbackslash, if_neg (hcontrol (by decide)),
    if_neg (hcontrol (by decide)), if_neg (hcontrol (by decide)), if_neg (hcontrol (by decide)),
    if_neg (hcontrol (by decide)), if_neg (Nat.not_lt.mpr hlow)]

/-- A text of plain characters stands unchanged between quotes. -/
theorem quote_of_isPlain {value : String} (h : ∀ c ∈ value.toList, IsPlain c) :
    quote value = '"' :: value.toList ++ ['"'] := by
  have hescape : value.toList.flatMap escape = value.toList.flatMap ([·]) :=
    List.flatMap_congr fun c hc ↦ escape_of_isPlain (h c hc)
  rw [quote, hescape, List.flatMap_singleton']
  rfl

theorem writeItems_map {α : Type} (layout : Layout) (depth : Nat) (make : α → Document)
    (items : List α) :
    writeItems layout depth (items.map make) = items.map (writeAt layout depth <| make ·) := by
  induction items with
  | nil => rfl
  | cons item rest ih => rw [List.map_cons, writeItems, ih, List.map_cons]

/-- On one line, an array has its items between commas. -/
theorem toList_render_compact_array (items : List Document) :
    ((array items).render .compact).toList =
      '[' :: [','].intercalate (writeItems .compact 1 items) ++ [']'] := by
  rw [render, String.toList_ofList, writeAt, Layout.enclose]
  split
  · rename_i h
    rw [h]
    rfl
  · simp [Layout.lineBreak]

end Document

/-- A line that holds the JSON array of some texts, each of them between quotes as it is. -/
structure IsTextArray (line : List Char) (texts : List (List Char)) : Prop where
  line_eq : line = '[' :: [','].intercalate (texts.map fun text ↦ '"' :: text ++ ['"']) ++ [']']
  plain : ∀ text ∈ texts, ∀ c ∈ text, IsPlain c

theorem IsTextArray.lineFeed_notMem {line : List Char} {texts : List (List Char)}
    (h : IsTextArray line texts) : '\n' ∉ line := by
  rw [h.line_eq]
  intro hmem
  rcases List.mem_append.mp hmem with hmem | hmem
  · rcases List.mem_cons.mp hmem with hopening | hmem
    · cases hopening
    · rcases mem_of_mem_intercalate hmem with hcomma | ⟨part, hpart, hmem⟩
      · cases hcomma
      · obtain ⟨text, htext, rfl⟩ := List.mem_map.mp hpart
        simp at hmem
        exact (h.plain text htext _ hmem).ne_lineFeed rfl
  · cases List.mem_singleton.mp hmem

/-- The array of the texts of minutes is written on one line, as it is. -/
theorem isTextArray_render (moments : List CalendarMinute) :
    IsTextArray
      ((Document.array (moments.map fun moment ↦ .text moment.text)).render .compact).toList
      (moments.map fun moment ↦ moment.text.toList) where
  line_eq := by
    have hquote (moment : CalendarMinute) :
        (Document.text moment.text).writeAt .compact 1 = '"' :: moment.text.toList ++ ['"'] := by
      rw [Document.writeAt]
      exact Document.quote_of_isPlain fun c ↦ isPlain_of_mem_text
    rw [Document.toList_render_compact_array, Document.writeItems_map, List.map_map]
    simp only [hquote]
    rfl
  plain text htext c hc := by
    obtain ⟨moment, -, rfl⟩ := List.mem_map.mp htext
    exact isPlain_of_mem_text hc

/-! ### Listings -/

namespace Command

/-- What is shown of the minutes of a window: all of them if it has an end, else the first
hundred. -/
def shown (bound : Option DateTime) (moments : List CalendarMinute) : List CalendarMinute :=
  if bound.isNone then moments.take 100 else moments

/-- An output consists of some lines, each of them ended by a line feed. -/
structure HasLines (output : String) (lines : List (List Char)) : Prop where
  toList_eq : output.toList = lines.flatMap (· ++ ['\n'])
  lineFeed_notMem : ∀ line ∈ lines, '\n' ∉ line

/-- A report shows minutes: in text on a line for each of them, in JSON on one line with the array
of the same texts, and with a notice in place of an output if there are none. -/
structure IsListing (json : Bool) (moments : List CalendarMinute) (report : Report) : Prop where
  code : report.status.code = 0
  noMoments : moments = [] →
    report.output = "" ∧ report.errorText = "no occurrences in range\n"
  quiet : moments ≠ [] → report.errorText = ""
  asText : moments ≠ [] → json = false →
    HasLines report.output (moments.map fun moment ↦ moment.text.toList)
  asArray : moments ≠ [] → json = true → ∃ line, HasLines report.output [line] ∧
    IsTextArray line (moments.map fun moment ↦ moment.text.toList)

/-- In text, a listing has a line for each minute. -/
theorem hasLines_listing_text (moments : List CalendarMinute) :
    HasLines (listing false moments) (moments.map fun moment ↦ moment.text.toList) where
  toList_eq := by
    rw [listing, if_neg Bool.false_ne_true, String.toList_join, List.flatMap_map, List.flatMap_map]
    exact List.flatMap_congr fun moment _ ↦ String.toList_append
  lineFeed_notMem line hline hmem := by
    obtain ⟨moment, -, rfl⟩ := List.mem_map.mp hline
    exact (isPlain_of_mem_text hmem).ne_lineFeed rfl

/-- In JSON, a listing is a line with an array. -/
theorem hasLines_listing_json (moments : List CalendarMinute) :
    ∃ line, HasLines (listing true moments) [line] ∧
      IsTextArray line (moments.map fun moment ↦ moment.text.toList) := by
  have harray := isTextArray_render moments
  refine ⟨_, ⟨?_, ?_⟩, harray⟩
  · rw [listing, if_pos rfl, String.toList_append, List.flatMap_singleton]
    rfl
  · intro line hline
    rw [List.mem_singleton.mp hline]
    exact harray.lineFeed_notMem

/-- The report on the minutes of a window shows them. -/
theorem isListing_reportListing (json : Bool) (moments : List CalendarMinute) :
    IsListing json moments (reportListing json .nothingInRange moments) := by
  cases moments with
  | nil =>
    have htext : Notice.nothingInRange.text = "no occurrences in range\n" := rfl
    refine ⟨rfl, fun _ ↦ ⟨rfl, ?_⟩, absurd rfl, absurd rfl, absurd rfl⟩
    simp [reportListing, Report.errorText, htext]
  | cons moment rest =>
    refine ⟨rfl, fun hnil ↦ absurd hnil (List.cons_ne_nil _ _), fun _ ↦ rfl, fun _ hjson ↦ ?_,
      fun _ hjson ↦ ?_⟩
    · rw [hjson]
      exact hasLines_listing_text (moment :: rest)
    · rw [hjson]
      exact hasLines_listing_json (moment :: rest)

namespace Options

variable {options : Options} {reader : DateTimeReader} {expression : Expression}
  {start : DateTime} {bound : Option DateTime}

/-- What options ask for is chosen. -/
theorem AsksFor.chosen_eq (h : options.AsksFor reader expression) :
    options.chosen reader = .ok expression := by
  cases h with
  | rule hrule hanchor hread =>
    simp only [chosen, hrule, hanchor, DateTimeReader.readSetting, hread]
    rfl
  | text hrule htext hparse => simp only [chosen, hrule, htext, hparse]

/-- A window between date-times has the minutes that the expression selects, as far as they are
shown. -/
theorem range_eq_shown {text : String} (hstart : reader text = .ok start)
    (hbound : reader.ReadsAs options.stop bound) :
    options.range reader expression text =
      .ok (shown bound ((expression.selection start bound).sort (· ≤ ·))) := by
  rw [range_of_readsAs hstart hbound]
  cases bound with
  | none =>
    have hshown (moments : List CalendarMinute) :
        shown none moments = moments.take listingLimit := rfl
    rw [hshown, ← Expression.ahead_occurrences,
      ← Occurrences.items_take (Expression.withinDomains_occurrences expression start none)]
    rfl
  | some stop =>
    rw [← Expression.result_toList_occurrences]
    rfl

/-- A run on a window shows it. -/
theorem isListing_run (hasks : options.AsksFor reader expression)
    (hdeciding : options.deciding? = none) (hstart : reader.ReadsAs options.start (some start))
    (hbound : reader.ReadsAs options.stop bound) (present : DateTime) :
    IsListing options.json (shown bound ((expression.selection start bound).sort (· ≤ ·)))
      (options.run reader present) := by
  rw [run, hasks.chosen_eq]
  dsimp only
  rw [reportOn_of_deciding?_eq_none hdeciding]
  generalize hwindow : options.start = window at hstart
  cases hstart with
  | some hread =>
    dsimp only
    rw [range_eq_shown hread hbound]
    exact isListing_reportListing _ _

end Options

/-- A run on a window for an expression or a rule shows the minutes that the expression selects
from the minute of the start on, in ascending order: all up to the end of the window, and the
first hundred if it has no end. It succeeds, be there minutes to show or not. Each line tells its
minute, since different minutes have different texts. -/
theorem isListing_run_window {surroundings : Surroundings} {arguments : List String}
    {options : Options} {expression : Expression} {start : DateTime} {bound : Option DateTime}
    (harguments : surroundings.readArguments arguments = .ok options)
    (hasks : options.AsksFor surroundings.readDateTime expression)
    (hdeciding : options.deciding? = none)
    (hstart : surroundings.readDateTime.ReadsAs options.start (some start))
    (hbound : surroundings.readDateTime.ReadsAs options.stop bound) :
    IsListing options.json (shown bound ((expression.selection start bound).sort (· ≤ ·)))
      (surroundings.run arguments) ∧
    Function.Injective CalendarMinute.text := by
  refine ⟨?_, CalendarMinute.text_injective⟩
  rw [Surroundings.run_of_accepted harguments]
  exact Options.isListing_run hasks hdeciding hstart hbound surroundings.present

/-- The midnights of leap days. -/
def leapDays : Expression where
  minute := .number 0
  hour := .number 0
  dayOfMonth := .number 29
  month := .number 2
  dayOfWeek := .wildcard

/-- The leap days between two dates are listed as an array. -/
theorem isListing_leapDays :
    ∃ start stop, Surroundings.standardReader "-000004-02-29" = .ok start ∧
      Surroundings.standardReader "2030-12-31 23:59:59" = .ok stop ∧
      IsListing true (shown (some stop) ((leapDays.selection start (some stop)).sort (· ≤ ·)))
        (run start ["0 0 29 feb *", "--json", "--from=-000004-02-29",
          "--to", "2030-12-31 23:59:59"]) := by
  obtain ⟨start, hstart⟩ : ∃ start, Surroundings.standardReader "-000004-02-29" = .ok start :=
    ⟨_, by cbv⟩
  obtain ⟨stop, hstop⟩ : ∃ stop, Surroundings.standardReader "2030-12-31 23:59:59" = .ok stop :=
    ⟨_, by cbv⟩
  have harguments : (Surroundings.standard start).readArguments ["0 0 29 feb *", "--json",
      "--from=-000004-02-29", "--to", "2030-12-31 23:59:59"] = .ok {
        expression := some "0 0 29 feb *"
        start := some "-000004-02-29"
        stop := some "2030-12-31 23:59:59"
        json := true } := by
    cbv
  have hparse : Expression.parse "0 0 29 feb *" = .ok leapDays := by cbv
  refine ⟨start, stop, hstart, hstop, ?_⟩
  exact (isListing_run_window harguments (.text rfl rfl hparse) rfl (.some hstart)
    (.some hstop)).1

end Command

end Recurrence
