import Recurrence.Expression.Document
import Recurrence.Occurrences.Matcher
import Recurrence.Proofs.WrittenForm

/-!
What comes back when the text of an expression is read, whatever bytes the expression holds.

A text is read back only where the pattern that it was written for is in normal form, except
that a list of one value comes back as that value (`Pattern.spells_write_iff`): no other
pattern has a text that means something else. An empty list leaves no word in the text of an
expression (`Expression.length_words_text`), and the words of an expression without empty
lists are the texts of its patterns. So reading ends with the number of words, with the first
pattern that cannot be read, or with an expression of the same matches
(`Expression.parse_text_cases`).
-/

set_option autoImplicit false
set_option relaxedAutoImplicit false

namespace Recurrence

open Recurrence.Text Recurrence.Occurrences

/-! ### Patterns -/

namespace Pattern

/-- A list of one value as that value, and every other pattern as it is. -/
def simplified : Pattern → Pattern
  | list values =>
    match values.members with
    | [value] => number value
    | _ => list values
  | pattern => pattern

/-- A pattern that is read back from its text: it is in normal form for a domain, or the list of
one value of the domain. -/
def Legible (bounds : Bounds) (pattern : Pattern) : Prop :=
  pattern.Canonical bounds ∨ ∃ values value, pattern = list values ∧
    values.members = [value] ∧ bounds.Admits value.toNat

variable {bounds : Bounds} {pattern result : Pattern} {value other : UInt8}

/-- A pattern is a list of one value, or it is simple already. -/
theorem simplified_cases (pattern : Pattern) :
    (∃ values value, pattern = list values ∧ values.members = [value] ∧
      pattern.simplified = number value) ∨
    (∀ values, pattern = list values → values.members.length ≠ 1) ∧
      pattern.simplified = pattern := by
  cases pattern with
  | list values =>
    by_cases hsingle : values.members.length = 1
    · obtain ⟨value, hvalue⟩ := List.length_eq_one_iff.mp hsingle
      exact Or.inl ⟨values, value, rfl, hvalue, by simp only [simplified, hvalue]⟩
    · refine Or.inr ⟨?_, ?_⟩
      · rintro _ ⟨⟩
        exact hsingle
      · simp only [simplified]
        split
        · rename_i value hvalue
          rw [hvalue] at hsingle
          exact absurd rfl hsingle
        · rfl
  | _ => exact Or.inr ⟨nofun, rfl⟩

/-- A pattern is legible where its simpler form is in normal form. -/
theorem legible_iff : pattern.Legible bounds ↔ pattern.simplified.Canonical bounds := by
  rcases pattern.simplified_cases with ⟨values, value, rfl, hvalue, hsimple⟩ | ⟨hlength, hsimple⟩
  · rw [hsimple]
    constructor
    · intro h
      rcases h with ⟨hdistinct, -⟩ | ⟨_, other, ⟨⟩, hother, hadmits⟩
      · rw [hvalue, List.length_singleton] at hdistinct
        omega
      · rw [hvalue, List.singleton_inj] at hother
        rw [hother]
        exact hadmits
    · intro hadmits
      exact Or.inr ⟨values, value, rfl, hvalue, hadmits⟩
  · rw [hsimple]
    constructor
    · intro h
      rcases h with hcanonical | ⟨values, value, hlist, hvalue, -⟩
      · exact hcanonical
      · refine absurd ?_ (hlength values hlist)
        rw [hvalue, List.length_singleton]
    · exact Or.inl

/-- A list of one value is written like that value. -/
@[simp]
theorem write_simplified (pattern : Pattern) : pattern.simplified.write = pattern.write := by
  rcases pattern.simplified_cases with ⟨values, value, rfl, hvalue, hsimple⟩ | ⟨-, hsimple⟩
  · rw [hsimple, write, write, hvalue, List.map_singleton, List.intercalate_singleton]
  · rw [hsimple]

/-- The simpler form selects the same values. -/
@[simp]
theorem ofPattern_simplified (bounds : Bounds) (pattern : Pattern) :
    ValueSet.ofPattern bounds pattern.simplified = ValueSet.ofPattern bounds pattern := by
  rcases pattern.simplified_cases with ⟨values, value, rfl, hvalue, hsimple⟩ | ⟨-, hsimple⟩
  · rw [hsimple, ValueSet.ofPattern, ValueSet.ofPattern, Pattern.values, Pattern.values, hvalue,
      List.map_singleton]
  · rw [hsimple]

/-! ### Texts that are read back -/

/-- The digits of a number are read as a value only where the domain holds the number. -/
theorem admits_of_isValue_write (h : IsValue bounds (Decimal.write value.toNat) other) :
    bounds.Admits value.toNat := by
  rw [(StandsFor.write value.toNat).unique h.1]
  exact h.2

/-- The digits of a number are read as a step only where the number is a step. -/
theorem bounds_of_isStep_write (h : IsStep bounds (Decimal.write value.toNat) other) :
    1 ≤ value.toNat ∧ value ≤ bounds.greatest := by
  have hdenotes := (Decimal.read?_eq_some_iff.mp (Decimal.read?_write value.toNat)).2.2
  have hsame : value = other := UInt8.toNat_inj.mp (hdenotes.symm.trans h.denotes)
  rw [hsame]
  exact ⟨h.pos, h.le_greatest⟩

/-- No separator stands in the digits of a number. -/
theorem notMem_write {separator : Char} (h : separator.isAlphanum = false) (number : Nat) :
    separator ∉ Decimal.write number :=
  (StandsFor.write number).notMem h

/-- No separator but the hyphen stands between two numbers. -/
theorem notMem_write_range {separator : Char} (h : separator.isAlphanum = false)
    (hhyphen : separator ≠ '-') (first last : UInt8) :
    separator ∉ Decimal.write first.toNat ++ '-' :: Decimal.write last.toNat := by
  rw [List.mem_append, List.mem_cons]
  intro hparts
  rcases hparts with hin | hsame | hin
  · exact notMem_write h _ hin
  · exact hhyphen hsame
  · exact notMem_write h _ hin

/-- The digits of a number are read only where the domain holds the number. -/
theorem admits_of_parse_write (h : parse bounds (Decimal.write value.toNat) = .ok result) :
    bounds.Admits value.toNat := by
  rw [parse_of_plain (StandsFor.write value.toNat).ne_star (notMem_write (by decide) _)
    (notMem_write (by decide) _) (notMem_write (by decide) _), map_eq_ok_iff] at h
  obtain ⟨other, hother, -⟩ := h
  exact admits_of_isValue_write (readValue_eq_ok_iff.mp hother)

/-- A list of several values is read back only where the domain holds all of them. -/
theorem admits_of_parse_list {values : ByteSet} (hlength : 2 ≤ values.members.length)
    (h : parse bounds (list values).write = .ok result) :
    ∀ value ∈ values.members, bounds.Admits value.toNat := by
  have halphanum : ∀ entry ∈ values.members.map fun value ↦ Decimal.write value.toNat,
      ∀ c ∈ entry, c.isAlphanum = true := by
    intro entry hentry
    obtain ⟨value, -, rfl⟩ := List.mem_map.mp hentry
    exact (StandsFor.write value.toNat).isAlphanum
  rw [write, parse_of_entries (by rwa [List.length_map]) halphanum, map_eq_ok_iff] at h
  obtain ⟨found, hfound, -⟩ := h
  rw [mapM_readValue_eq_ok_iff] at hfound
  intro value hvalue
  have hentry : bounds.value? (Decimal.write value.toNat) ∈ found.map some := by
    rw [← hfound, List.map_map]
    exact List.mem_map_of_mem hvalue
  obtain ⟨other, -, hother⟩ := List.mem_map.mp hentry
  exact admits_of_isValue_write (Bounds.value?_eq_some_iff.mp hother.symm)

/-- A pattern that is read back from its text, as whatever, is legible. -/
theorem legible_of_parse_write (h : parse bounds pattern.write = .ok result) :
    pattern.Legible bounds := by
  cases pattern with
  | number value => exact Or.inl (admits_of_parse_write h)
  | wildcard => exact Or.inl trivial
  | step increment =>
    have hslash : '/' ∉ ['*'] := by decide
    rw [show (step increment).write = ['*'] ++ '/' :: Decimal.write increment.toNat from rfl,
      parse_of_slash hslash, readProgression_eq_ok_iff] at h
    obtain ⟨size, hsize, -⟩ := h
    exact Or.inl (bounds_of_isStep_write hsize)
  | stepFrom start increment =>
    rw [write, parse_of_slash (notMem_write (by decide) _), readProgression_eq_ok_iff] at h
    obtain ⟨size, hsize, ⟨hstar, -⟩ | ⟨-, first, hfirst, -⟩⟩ := h
    · exact absurd hstar (StandsFor.write start.toNat).ne_star
    · exact Or.inl ⟨admits_of_isValue_write hfirst, bounds_of_isStep_write hsize⟩
  | stepRange first last increment =>
    -- Before the slash only a star or one value is read, and what is written there has a hyphen.
    have hhyphen : '-' ∈ Decimal.write first.toNat ++ '-' :: Decimal.write last.toNat := by simp
    have hslash : '/' ∉ Decimal.write first.toNat ++ '-' :: Decimal.write last.toNat :=
      notMem_write_range (by decide) (by decide) first last
    rw [write, parse_of_slash hslash, readProgression_eq_ok_iff] at h
    obtain ⟨size, -, ⟨hstar, -⟩ | ⟨-, start, hstart, -⟩⟩ := h
    · exact absurd hstar (ne_star_of_mem hhyphen (by decide))
    · exact absurd hhyphen (hstart.1.notMem (by decide))
  | range first last =>
    have hslash : '/' ∉ Decimal.write first.toNat ++ '-' :: Decimal.write last.toNat :=
      notMem_write_range (by decide) (by decide) first last
    rw [write, parse_of_hyphen hslash (notMem_write (by decide) _), readRange_eq_ok_iff] at h
    obtain ⟨left, right, hleft, hright, hle, -⟩ := h
    have hfirst : first = left := UInt8.toNat_inj.mp ((StandsFor.write _).unique hleft.1)
    have hlast : last = right := UInt8.toNat_inj.mp ((StandsFor.write _).unique hright.1)
    rw [hfirst, hlast]
    exact Or.inl ⟨hleft.2, hright.2, hle⟩
  | list values =>
    rcases values with ⟨members, hascending⟩
    cases members with
    | nil => cases h
    | cons first others =>
      cases others with
      | nil =>
        rw [write, List.map_singleton, List.intercalate_singleton] at h
        exact Or.inr ⟨_, first, rfl, rfl, admits_of_parse_write h⟩
      | cons second others =>
        have hlength : 2 ≤ (first :: second :: others).length := Nat.le_add_left 2 others.length
        exact Or.inl ⟨hlength, admits_of_parse_list hlength h⟩

/-- The text of a pattern spells the simpler form of the pattern and nothing else, and that only
if the pattern is legible. -/
theorem spells_write_iff :
    Spells bounds pattern.write result ↔ pattern.Legible bounds ∧ result = pattern.simplified := by
  have hwritten (h : pattern.Legible bounds) : Spells bounds pattern.write pattern.simplified := by
    rw [← write_simplified]
    exact spells_write (legible_iff.mp h)
  constructor
  · intro h
    have hparse := parse_of_spells h
    have hlegible := legible_of_parse_write hparse
    rw [parse_of_spells (hwritten hlegible)] at hparse
    exact ⟨hlegible, (Except.ok.inj hparse).symm⟩
  · intro h
    rw [h.2]
    exact hwritten h.1

/-- Only an empty list is written as nothing. -/
theorem write_eq_nil_iff : pattern.write = [] ↔ pattern = list .empty := by
  constructor
  · intro h
    cases pattern with
    | number value => exact absurd h (Decimal.write_ne_nil _)
    | wildcard | step => cases h
    | stepFrom | stepRange | range => simp [write] at h
    | list values =>
      rcases values with ⟨_ | ⟨first, others⟩, hascending⟩
      · rfl
      · cases others with
        | nil =>
          rw [write, List.map_singleton, List.intercalate_singleton] at h
          exact absurd h (Decimal.write_ne_nil _)
        | cons second others =>
          rw [write, List.map_cons, List.map_cons, List.intercalate_cons_cons] at h
          simp at h
  · rintro rfl
    rfl

end Pattern

/-! ### Expressions -/

namespace Expression

variable {input : String} {field : Field} {place : Field → Word}

/-- Every list of one value as that value. -/
def simplified (expression : Expression) : Expression :=
  ofFields fun field ↦ (expression.get field).simplified

@[simp]
theorem get_simplified (expression : Expression) (field : Field) :
    expression.simplified.get field = (expression.get field).simplified :=
  get_ofFields _ field

/-- The number of fields that are empty lists. -/
def emptyLists (expression : Expression) : Nat :=
  Field.all.countP fun field ↦ expression.get field = .list .empty

/-- The simpler form matches the same date-times. -/
theorem matchesAt_simplified (expression : Expression) (moment : Calendar.DateTime) :
    expression.simplified.matchesAt moment = expression.matchesAt moment := by
  have hmatcher : Matcher.ofExpression expression.simplified = Matcher.ofExpression expression := by
    simp only [Matcher.ofExpression, get_simplified, Pattern.ofPattern_simplified]
  rw [matchesAt, matchesAt, hmatcher]

/-! ### Words of a text -/

/-- The text of an expression has a word for each field that is not an empty list. -/
theorem length_words_text (expression : Expression) :
    (words expression.text.toList).length + expression.emptyLists = 5 := by
  have hwords : (words expression.text.toList).length =
      Field.all.countP fun field ↦ ¬ decide (expression.get field = .list .empty) = true := by
    rw [← List.length_map Word.letters, map_letters_words_text, ← List.countP_eq_length_filter,
      List.countP_map]
    apply List.countP_congr
    intro field _
    simp [Pattern.write_eq_nil_iff]
  calc (words expression.text.toList).length + expression.emptyLists
      = expression.emptyLists + Field.all.countP fun field ↦
          ¬ decide (expression.get field = .list .empty) = true := by rw [hwords, Nat.add_comm]
    _ = Field.all.length := (List.length_eq_countP_add_countP _).symm
    _ = 5 := rfl

/-- Without empty lists every pattern is written as something. -/
theorem emptyLists_eq_zero_iff {expression : Expression} :
    expression.emptyLists = 0 ↔ ∀ field, (expression.get field).write ≠ [] := by
  simp only [emptyLists, List.countP_eq_zero, decide_eq_true_eq, ne_eq, Pattern.write_eq_nil_iff,
    Field.mem_all, true_imp_iff]

/-- Five words are one for each field. -/
theorem exists_place {found : List Word} (h : found.length = 5) :
    ∃ place : Field → Word, found = Field.all.map place := by
  match found, h with
  | [minute, hour, dayOfMonth, month, dayOfWeek], _ =>
    exact ⟨fun field ↦ field.casesOn minute hour dayOfMonth month dayOfWeek, rfl⟩

/-- Another number of words than five is entered in the log and reported. -/
theorem parseLogged_of_length_ne (h : (words input.toList).length ≠ 5) :
    parseLogged input = ⟨.error (.fieldCount (words input.toList).length input),
      [.wrongFieldCount input (words input.toList).length]⟩ := by
  unfold parseLogged
  split
  · rename_i hwords
    rw [hwords] at h
    exact absurd rfl h
  · rfl

theorem parse_of_length_ne (h : (words input.toList).length ≠ 5) :
    parse input = .error (.fieldCount (words input.toList).length input) :=
  congrArg Logged.result (parseLogged_of_length_ne h)

/-- Five words are read one after another. -/
theorem parseLogged_of_place (hplace : words input.toList = Field.all.map place) :
    parseLogged input = ExceptT.run do
      let minute ← readField input .minute (place .minute)
      let hour ← readField input .hour (place .hour)
      let dayOfMonth ← readField input .dayOfMonth (place .dayOfMonth)
      let month ← readField input .month (place .month)
      let dayOfWeek ← readField input .dayOfWeek (place .dayOfWeek)
      return { minute, hour, dayOfMonth, month, dayOfWeek } := by
  rw [parseLogged, hplace]
  rfl

/-- Of five words the first that is refused for its field is entered in the log and reported. -/
theorem parseLogged_of_refused {diagnostic : Diagnostic}
    (hplace : words input.toList = Field.all.map place)
    (hearlier : ∀ earlier, earlier.index < field.index →
      ∃ pattern, Pattern.read earlier.bounds (place earlier).text = .ok pattern)
    (hrefused : Pattern.read field.bounds (place field).text = .error diagnostic) :
    parseLogged input =
      ⟨.error (.field field (place field).text (place field).span input diagnostic.message),
        [.invalidField input field (place field).text]⟩ := by
  choose pattern hread using hearlier
  have hpure (earlier : Field) (hlt : earlier.index < field.index) :
      readField input earlier (place earlier) = pure (pattern earlier hlt) :=
    readField_of_read (hread earlier hlt)
  have hstop : (readField input field (place field)).run =
      ⟨.error (.field field (place field).text (place field).span input diagnostic.message),
        [.invalidField input field (place field).text]⟩ :=
    run_readField_of_refused hrefused
  rw [parseLogged_of_place hplace]
  cases field with
  | minute => exact Logged.run_bind_of_error hstop
  | hour =>
    rw [hpure .minute (by decide), pure_bind]
    exact Logged.run_bind_of_error hstop
  | dayOfMonth =>
    rw [hpure .minute (by decide), hpure .hour (by decide), pure_bind, pure_bind]
    exact Logged.run_bind_of_error hstop
  | month =>
    rw [hpure .minute (by decide), hpure .hour (by decide), hpure .dayOfMonth (by decide),
      pure_bind, pure_bind, pure_bind]
    exact Logged.run_bind_of_error hstop
  | dayOfWeek =>
    rw [hpure .minute (by decide), hpure .hour (by decide), hpure .dayOfMonth (by decide),
      hpure .month (by decide), pure_bind, pure_bind, pure_bind, pure_bind]
    exact Logged.run_bind_of_error hstop

/-! ### Reading back -/

section

variable {word : Word} {pattern : Pattern}

theorem text_eq_of_letters (hword : word.letters = pattern.write) : word.text = pattern.text := by
  rw [Word.text, hword, Pattern.text]

/-- A word that is the text of a pattern is read where the pattern is legible, and as its simpler
form. -/
theorem read_of_legible (hword : word.letters = pattern.write) (h : pattern.Legible field.bounds) :
    Pattern.read field.bounds word.text = .ok pattern.simplified := by
  rw [Pattern.read_eq_ok_iff, text_eq_of_letters hword, Pattern.text, String.toList_ofList,
    Pattern.spells_write_iff]
  exact ⟨h, rfl⟩

/-- A word that is the text of a pattern is refused where the pattern is not legible. -/
theorem read_of_not_legible (hword : word.letters = pattern.write)
    (h : ¬ pattern.Legible field.bounds) :
    ∃ reason, Pattern.read field.bounds word.text = .error (.value reason) := by
  rw [Pattern.read_eq_error_iff, text_eq_of_letters hword, Pattern.text, String.toList_ofList]
  intro result hspells
  exact h (Pattern.spells_write_iff.mp hspells).1

end

/-- The text of an expression is read where all of its patterns are legible, and then as the
simpler form of the expression. -/
theorem parse_text_eq_ok_iff {expression result : Expression} :
    parse expression.text = .ok result ↔
      (∀ field, (expression.get field).Legible field.bounds) ∧ result = expression.simplified := by
  have hspells (hfull : ∀ field, (expression.get field).write ≠ []) :
      parse expression.text = .ok result ↔ ∀ field,
        (expression.get field).Legible field.bounds ∧
          result.get field = (expression.get field).simplified := by
    simp only [parse_text_eq_ok_iff_spells hfull, Pattern.spells_write_iff]
  -- On both sides no field is an empty list, but for different reasons: five words were read, or
  -- an empty list is not legible.
  constructor
  · intro h
    have hcount : (words expression.text.toList).length = 5 := by
      rw [← List.length_map Word.letters, ← (parse_eq_ok_iff.mp h).length_eq]
      rfl
    have hfull : ∀ field, (expression.get field).write ≠ [] := by
      have htotal := expression.length_words_text
      rw [← emptyLists_eq_zero_iff]
      omega
    have hparts := (hspells hfull).mp h
    refine ⟨fun field ↦ (hparts field).1, eq_of_get fun field ↦ ?_⟩
    rw [(hparts field).2, get_simplified]
  · intro hparts
    obtain ⟨hlegible, rfl⟩ := hparts
    have hfull (field : Field) : (expression.get field).write ≠ [] :=
      (Pattern.spells_write_iff.mpr ⟨hlegible field, rfl⟩).ne_nil
    rw [hspells hfull]
    intro field
    rw [get_simplified]
    exact ⟨hlegible field, rfl⟩

/-- A text that is stored is read like any other. -/
theorem result_ofStored_text (input : String) :
    (ofStored (.text input)).result = (parse input).mapError .unreadable :=
  rfl

/-- Empty lists leave words out, so the number of words is reported. -/
theorem parse_text_of_emptyLists_ne_zero {expression : Expression}
    (h : expression.emptyLists ≠ 0) :
    parse expression.text =
      .error (.fieldCount (5 - expression.emptyLists) expression.text) := by
  have htotal := expression.length_words_text
  have hcount : (words expression.text.toList).length = 5 - expression.emptyLists := by omega
  rw [parse_of_length_ne (by omega), hcount]

/-- Without empty lists, the first pattern that is not legible is reported with its own text. -/
theorem exists_parse_text_of_not_legible {expression : Expression} {field : Field}
    (hfull : expression.emptyLists = 0) (h : ¬ (expression.get field).Legible field.bounds)
    (hearlier : ∀ earlier, earlier.index < field.index →
      (expression.get earlier).Legible earlier.bounds) :
    ∃ span reason,
      parse expression.text =
          .error (.field field (expression.get field).text span expression.text reason) ∧
        Pattern.read field.bounds (expression.get field).text = .error (.value reason) := by
  have hfive : (words expression.text.toList).length = 5 := by
    have htotal := expression.length_words_text
    omega
  obtain ⟨place, hplace⟩ := exists_place hfive
  have hletters : ∀ field, (place field).letters = (expression.get field).write := by
    have hwords := map_letters_words_text_of_ne_nil (emptyLists_eq_zero_iff.mp hfull)
    rw [hplace, List.map_map, List.map_inj_left] at hwords
    exact fun field ↦ hwords field (Field.mem_all field)
  have htext : (place field).text = (expression.get field).text :=
    text_eq_of_letters (hletters field)
  have hread : ∀ earlier, earlier.index < field.index →
      ∃ pattern, Pattern.read earlier.bounds (place earlier).text = .ok pattern :=
    fun earlier hlt ↦ ⟨_, read_of_legible (hletters earlier) (hearlier earlier hlt)⟩
  obtain ⟨reason, hreason⟩ := read_of_not_legible (hletters field) h
  refine ⟨(place field).span, reason, ?_, htext ▸ hreason⟩
  rw [parse, parseLogged_of_refused hplace hread hreason, htext]
  rfl

/-- What comes back from what is stored is read from the text. -/
theorem parse_text_of_ofStored {expression found : Expression}
    (h : (ofStored expression.stored).result = .ok found) :
    parse expression.text = .ok found := by
  rw [stored, result_ofStored_text] at h
  cases hparse : parse expression.text with
  | error diagnostic =>
    rw [hparse] at h
    cases h
  | ok read =>
    rw [hparse] at h
    cases h
    rfl

/-- What is read from the text of an expression, whatever bytes the expression holds. Empty lists
leave words out, and the number of words is reported. Otherwise the first pattern that is not
legible is reported with its own text, and if there is none, the expression comes back in its
simpler form, which matches the same date-times. So an expression that is stored as its text
either cannot be read back or matches what it matched before. -/
theorem parse_text_cases (expression : Expression) :
    (expression.emptyLists ≠ 0 →
      parse expression.text =
        .error (.fieldCount (5 - expression.emptyLists) expression.text)) ∧
    (expression.emptyLists = 0 → ∀ field,
      ¬ (expression.get field).Legible field.bounds →
      (∀ earlier, earlier.index < field.index →
        (expression.get earlier).Legible earlier.bounds) →
      ∃ span reason,
        parse expression.text =
            .error (.field field (expression.get field).text span expression.text reason) ∧
          Pattern.read field.bounds (expression.get field).text = .error (.value reason)) ∧
    ((∀ field, (expression.get field).Legible field.bounds) →
      parse expression.text = .ok expression.simplified) ∧
    (∀ moment, expression.simplified.matchesAt moment = expression.matchesAt moment) ∧
    ∀ found, (ofStored expression.stored).result = .ok found →
      ∀ moment, found.matchesAt moment = expression.matchesAt moment := by
  refine ⟨parse_text_of_emptyLists_ne_zero, ?_, fun hlegible ↦ ?_,
    expression.matchesAt_simplified, fun found hfound ↦ ?_⟩
  · intro hfull field hfails hearlier
    exact exists_parse_text_of_not_legible hfull hfails hearlier
  · exact parse_text_eq_ok_iff.mpr ⟨hlegible, rfl⟩
  · obtain ⟨-, rfl⟩ := parse_text_eq_ok_iff.mp (parse_text_of_ofStored hfound)
    exact expression.matchesAt_simplified

end Expression

end Recurrence
