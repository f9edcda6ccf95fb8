import Recurrence.Expression.Text
import Recurrence.Proofs.PatternGrammar

/-!
Writing is a right inverse of reading, on the expressions that can be read at all.

A pattern that some text spells is in normal form (`Spells.canonical`), and a pattern in
normal form is spelled by the text that is written for it (`Pattern.spells_write`). No
white space stands in a written pattern, so the words of a written expression are its
written patterns (`Text.map_letters_wordsFrom_intercalate`). Hence the expressions that are
read are those in normal form, and they are read from their own text
(`Expression.parse_iff_canonical`).
-/

set_option autoImplicit false
set_option relaxedAutoImplicit false

namespace Recurrence

open Recurrence.Text

/-! ### Words between spaces -/

namespace Text

variable {letters rest : List Char}

theorem wordsFrom_cons_of_isBlank {character : Char} (h : isBlank character = true)
    (start : Nat) :
    wordsFrom start (character :: rest) = wordsFrom (start + character.utf8Size) rest := by
  rw [wordsFrom, if_pos h]

/-- A run without white space is the first word of a text, if the text ends behind it or
goes on with white space. -/
theorem wordsFrom_append (hne : letters ≠ []) (hletters : ∀ c ∈ letters, isBlank c = false)
    (hrest : ∀ c ∈ rest.head?, isBlank c = true) (start : Nat) :
    wordsFrom start (letters ++ rest) =
      ⟨start, letters⟩ :: wordsFrom (start + byteCount letters) rest := by
  have hstop : rest.takeWhile (!isBlank ·) = [] ∧ rest.dropWhile (!isBlank ·) = rest := by
    cases rest with
    | nil => exact ⟨rfl, rfl⟩
    | cons next others =>
      have hnext : isBlank next = true := hrest next rfl
      simp [hnext]
  cases letters with
  | nil => exact absurd rfl hne
  | cons first others =>
    have hfirst : ¬ isBlank first = true := by
      rw [hletters first List.mem_cons_self]
      exact Bool.false_ne_true
    have hothers : ∀ c ∈ others, (!isBlank c) = true := by
      intro c hc
      rw [hletters c (List.mem_cons_of_mem _ hc)]
      rfl
    rw [List.cons_append, wordsFrom, if_neg hfirst, List.takeWhile_append_of_pos hothers,
      List.dropWhile_append_of_pos hothers, hstop.1, hstop.2, List.append_nil]

/-- The words of parts with a space between two of them are the parts that are not empty. -/
theorem map_letters_wordsFrom_intercalate {parts : List (List Char)}
    (h : ∀ part ∈ parts, ∀ c ∈ part, isBlank c = false) (start : Nat) :
    (wordsFrom start ([' '].intercalate parts)).map Word.letters = parts.filter (· ≠ []) := by
  induction parts generalizing start with
  | nil =>
    rw [List.intercalate_nil, wordsFrom]
    rfl
  | cons part others ih =>
    have hothers := ih fun other hother ↦ h other (List.mem_cons_of_mem _ hother)
    obtain ⟨rest, htext, hblank, hrest⟩ : ∃ rest,
        [' '].intercalate (part :: others) = part ++ rest ∧
          (∀ c ∈ rest.head?, isBlank c = true) ∧
          ∀ start, (wordsFrom start rest).map Word.letters = others.filter (· ≠ []) := by
      cases others with
      | nil =>
        refine ⟨[], ?_, ?_, hothers⟩
        · rw [List.intercalate_singleton, List.append_nil]
        · intro c hc
          cases hc
      | cons next others =>
        have hspace : isBlank ' ' = true := by decide
        refine ⟨' ' :: [' '].intercalate (next :: others), ?_, ?_, fun start ↦ ?_⟩
        · rw [List.intercalate_cons_cons, List.append_assoc]
          rfl
        · rintro c ⟨⟩
          exact hspace
        · rw [wordsFrom_cons_of_isBlank hspace, hothers]
    rw [htext]
    by_cases hpart : part = []
    · rw [hpart, List.nil_append, hrest]
      simp
    · rw [wordsFrom_append hpart (h part List.mem_cons_self) hblank, List.map_cons, hrest]
      simp [hpart]

/-- Between the space and the first control character of the second half there is no white
space. -/
theorem isBlank_eq_false {character : Char} (hlow : 0x20 < character.toNat)
    (hhigh : character.toNat < 0x85) : isBlank character = false := by
  have hsides : ∀ range ∈ blankRanges, range.2 ≤ 0x20 ∨ 0x85 ≤ range.1 := by decide
  rw [isBlank, List.any_eq_false]
  intro range hrange hin
  rw [Bool.and_eq_true, decide_eq_true_eq, decide_eq_true_eq] at hin
  rcases hsides range hrange with hbelow | habove
  · exact absurd (hin.2.trans hbelow) (Nat.not_le.mpr hlow)
  · exact absurd (habove.trans hin.1) (Nat.not_le.mpr hhigh)

theorem isBlank_eq_false_of_isDigit {character : Char} (h : character.isDigit = true) :
    isBlank character = false := by
  obtain ⟨hlow, hhigh⟩ := Char.isDigit_iff_toNat.mp h
  exact isBlank_eq_false (Nat.lt_of_lt_of_le (by decide) hlow)
    (Nat.lt_of_le_of_lt hhigh (by decide))

end Text

/-! ### Patterns -/

/-- The digits written for a number stand for it. -/
theorem StandsFor.write (number : Nat) : StandsFor (Decimal.write number) number := by
  obtain ⟨hne, hdigits, hdenotes⟩ := Decimal.read?_eq_some_iff.mp (Decimal.read?_write number)
  have hstands := StandsFor.digits hne hdigits
  rw [hdenotes] at hstands
  exact hstands

section

variable {bounds : Bounds} {letters : List Char} {pattern : Pattern}

theorem isValue_write {value : UInt8} (h : bounds.Admits value.toNat) :
    IsValue bounds (Decimal.write value.toNat) value :=
  ⟨StandsFor.write value.toNat, h⟩

/-- The digits written for a value of a domain stand for no other byte. -/
theorem isValue_write_iff {value other : UInt8} (h : bounds.Admits value.toNat) :
    IsValue bounds (Decimal.write value.toNat) other ↔ value = other := by
  constructor
  · intro hother
    exact UInt8.toNat_inj.mp ((StandsFor.write value.toNat).unique hother.1)
  · rintro rfl
    exact isValue_write h

theorem isStep_write {increment : UInt8} (hpos : 1 ≤ increment.toNat)
    (hle : increment ≤ bounds.greatest) :
    IsStep bounds (Decimal.write increment.toNat) increment := by
  obtain ⟨hne, hdigits, hdenotes⟩ :=
    Decimal.read?_eq_some_iff.mp (Decimal.read?_write increment.toNat)
  exact ⟨hne, hdigits, hdenotes, hpos, hle⟩

/-- What a text spells is in normal form. -/
theorem Spells.canonical (h : Spells bounds letters pattern) : pattern.Canonical bounds := by
  cases h with
  | wildcard => exact trivial
  | step hstep => exact ⟨hstep.pos, hstep.le_greatest⟩
  | stepFrom hstart hstep => exact ⟨hstart.2, hstep.pos, hstep.le_greatest⟩
  | range hfirst hlast hle => exact ⟨hfirst.2, hlast.2, hle⟩
  | list hentries hvalues hmem hdistinct =>
    refine ⟨hdistinct, fun value hvalue ↦ ?_⟩
    obtain ⟨entry, -, hstands⟩ := (hmem value).mp hvalue
    exact hstands.2
  | same hentries hvalues =>
    obtain ⟨entry, hentry⟩ := List.exists_mem_of_length_pos (Nat.lt_of_succ_lt hentries)
    exact (hvalues entry hentry).2
  | number hvalue => exact hvalue.2

/-- An empty text spells nothing. -/
theorem Spells.ne_nil (h : Spells bounds letters pattern) : letters ≠ [] := by
  rintro rfl
  have hparse := Pattern.parse_of_spells h
  cases hparse

namespace Pattern

/-- A pattern in normal form is spelled by its own text. -/
theorem spells_write (h : pattern.Canonical bounds) : Spells bounds pattern.write pattern := by
  cases pattern with
  | number value => exact .number (isValue_write h)
  | wildcard => exact .wildcard
  | step increment => exact .step (isStep_write h.1 h.2)
  | stepFrom start increment => exact .stepFrom (isValue_write h.1) (isStep_write h.2.1 h.2.2)
  | stepRange first last increment => exact h.elim
  | range first last => exact .range (isValue_write h.1) (isValue_write h.2.1) h.2.2
  | list values =>
    obtain ⟨hdistinct, hadmits⟩ := h
    refine .list ?_ (fun entry hentry ↦ ?_) (fun value ↦ ?_) hdistinct
    · rw [List.length_map]
      exact hdistinct
    · obtain ⟨value, hvalue, rfl⟩ := List.mem_map.mp hentry
      exact ⟨value, isValue_write (hadmits value hvalue)⟩
    · constructor
      · intro hvalue
        exact ⟨_, List.mem_map_of_mem hvalue, isValue_write (hadmits value hvalue)⟩
      · intro hparts
        obtain ⟨entry, hentry, hstands⟩ := hparts
        obtain ⟨other, hother, rfl⟩ := List.mem_map.mp hentry
        rw [← (isValue_write_iff (hadmits other hother)).mp hstands]
        exact hother

/-- Written patterns consist of digits and of the four signs of the grammar. -/
theorem mem_write {c : Char} (h : c ∈ pattern.write) :
    c.isDigit = true ∨ c ∈ ['*', '/', '-', ','] := by
  have hdigits {number : Nat} (hc : c ∈ Decimal.write number) :
      c.isDigit = true ∨ c ∈ ['*', '/', '-', ','] :=
    Or.inl (Decimal.isDigit_of_mem_write hc)
  cases pattern with
  | number value => exact hdigits h
  | wildcard =>
    rw [List.mem_singleton.mp h]
    exact Or.inr (by decide)
  | step increment =>
    rw [write, List.mem_cons, List.mem_cons] at h
    rcases h with rfl | rfl | h
    · exact Or.inr (by decide)
    · exact Or.inr (by decide)
    · exact hdigits h
  | stepFrom start increment =>
    rw [write, List.mem_append, List.mem_cons] at h
    rcases h with h | rfl | h
    · exact hdigits h
    · exact Or.inr (by decide)
    · exact hdigits h
  | stepRange first last increment =>
    rw [write, List.mem_append, List.mem_append, List.mem_cons, List.mem_cons] at h
    rcases h with (h | rfl | h) | rfl | h
    · exact hdigits h
    · exact Or.inr (by decide)
    · exact hdigits h
    · exact Or.inr (by decide)
    · exact hdigits h
  | range first last =>
    rw [write, List.mem_append, List.mem_cons] at h
    rcases h with h | rfl | h
    · exact hdigits h
    · exact Or.inr (by decide)
    · exact hdigits h
  | list values =>
    rcases mem_of_mem_intercalate h with rfl | ⟨entry, hentry, hc⟩
    · exact Or.inr (by decide)
    · obtain ⟨value, -, rfl⟩ := List.mem_map.mp hentry
      exact hdigits hc

/-- No white space stands in a written pattern. -/
theorem isBlank_eq_false_of_mem_write {c : Char} (h : c ∈ pattern.write) : isBlank c = false := by
  have hsigns : ∀ sign ∈ ['*', '/', '-', ','], 0x20 < sign.toNat ∧ sign.toNat < 0x85 := by
    simp
  rcases mem_write h with hdigit | hsign
  · exact isBlank_eq_false_of_isDigit hdigit
  · exact isBlank_eq_false (hsigns c hsign).1 (hsigns c hsign).2

end Pattern

end

/-! ### Expressions -/

namespace Expression

variable {expression : Expression} {input : String}

/-- Every pattern of an expression is in normal form for the domain of its field. -/
def Canonical (expression : Expression) : Prop :=
  ∀ field, (expression.get field).Canonical field.bounds

section

variable {field : Field} {word : Word} {pattern : Pattern}

/-- A word whose text is a pattern is read for its field, and nothing is entered. -/
theorem readField_of_read (h : Pattern.read field.bounds word.text = .ok pattern) :
    readField input field word = pure pattern := by
  rw [readField, h]

/-- A word whose text is refused is entered once, and reported with the reason that reading the
text alone gives. -/
theorem run_readField_of_refused {diagnostic : Diagnostic}
    (h : Pattern.read field.bounds word.text = .error diagnostic) :
    (readField input field word).run =
      ⟨.error (.field field word.text word.span input diagnostic.message),
        [.invalidField input field word.text]⟩ := by
  rw [readField, h]
  rfl

theorem readField_eq_ok_iff :
    (readField input field word).run.result = .ok pattern ↔
      Spells field.bounds word.letters pattern := by
  have hread : Pattern.read field.bounds word.text = .ok pattern ↔
      Spells field.bounds word.letters pattern := by
    rw [Pattern.read_eq_ok_iff, Word.text, String.toList_ofList]
  rw [← hread]
  cases hfound : Pattern.read field.bounds word.text with
  | ok found =>
    rw [readField_of_read hfound]
    rfl
  | error diagnostic =>
    rw [run_readField_of_refused hfound]
    constructor
    · rintro ⟨⟩
    · rintro ⟨⟩

end

/-- An expression is read where there is one word for each field that spells its pattern. -/
theorem parse_eq_ok_iff : parse input = .ok expression ↔
    List.Forall₂ (fun field letters ↦ Spells field.bounds letters (expression.get field))
      Field.all ((words input.toList).map Word.letters) := by
  unfold parse parseLogged
  split
  · rename_i minute hour dayOfMonth month dayOfWeek hwords
    rw [hwords]
    simp only [Logged.result_run_bind, bind_eq_ok_iff, readField_eq_ok_iff, Field.all,
      List.map_cons, List.map_nil, List.forall₂_cons, List.Forall₂.nil, and_true]
    constructor
    · intro hparts
      obtain ⟨_, hminute, _, hhour, _, hdayOfMonth, _, hmonth, _, hdayOfWeek, ⟨⟩⟩ := hparts
      exact ⟨hminute, hhour, hdayOfMonth, hmonth, hdayOfWeek⟩
    · intro hparts
      obtain ⟨hminute, hhour, hdayOfMonth, hmonth, hdayOfWeek⟩ := hparts
      exact ⟨_, hminute, _, hhour, _, hdayOfMonth, _, hmonth, _, hdayOfWeek, rfl⟩
  · rename_i hwords
    constructor
    · rintro ⟨⟩
    · intro h
      rw [List.forall₂_map_right_iff] at h
      generalize words input.toList = found at h hwords
      rcases h with _ | ⟨-, _ | ⟨-, _ | ⟨-, _ | ⟨-, _ | ⟨-, ⟨⟩⟩⟩⟩⟩⟩
      exact (hwords _ _ _ _ _ rfl).elim

/-- What is read is in normal form. -/
theorem canonical_of_parse (h : parse input = .ok expression) : expression.Canonical := by
  rw [parse_eq_ok_iff] at h
  have hall := h.imp fun _ _ hspells ↦ And.intro hspells.canonical hspells
  intro field
  exact ((List.forall₂_and_left _ _).mp hall).1 field (Field.mem_all field)

/-- The words of a written expression are its written patterns that are not empty. -/
theorem map_letters_words_text (expression : Expression) :
    (words expression.text.toList).map Word.letters =
      (Field.all.map fun field ↦ (expression.get field).write).filter (· ≠ []) := by
  have hblank : ∀ part ∈ expression.patterns.map Pattern.write,
      ∀ c ∈ part, isBlank c = false := by
    intro part hpart c hc
    obtain ⟨pattern, -, rfl⟩ := List.mem_map.mp hpart
    exact Pattern.isBlank_eq_false_of_mem_write hc
  rw [text, String.toList_ofList, words, Expression.write,
    map_letters_wordsFrom_intercalate hblank, patterns, List.map_map]
  rfl

/-- Where no pattern is written as nothing, the words are all the written patterns. -/
theorem map_letters_words_text_of_ne_nil (h : ∀ field, (expression.get field).write ≠ []) :
    (words expression.text.toList).map Word.letters =
      Field.all.map fun field ↦ (expression.get field).write := by
  rw [map_letters_words_text, List.filter_eq_self]
  intro part hpart
  obtain ⟨field, -, rfl⟩ := List.mem_map.mp hpart
  exact decide_eq_true (h field)

/-- Where no pattern is written as nothing, what is read from the text of an expression is what
the written patterns spell. -/
theorem parse_text_eq_ok_iff_spells {result : Expression}
    (h : ∀ field, (expression.get field).write ≠ []) :
    parse expression.text = .ok result ↔
      ∀ field, Spells field.bounds (expression.get field).write (result.get field) := by
  rw [parse_eq_ok_iff, map_letters_words_text_of_ne_nil h, List.forall₂_map_right_iff,
    List.forall₂_same]
  simp only [Field.mem_all, true_imp_iff]

/-- An expression in normal form is read from its own text. -/
theorem parse_text (h : expression.Canonical) : parse expression.text = .ok expression := by
  have hspells (field : Field) := Pattern.spells_write (h field)
  rw [parse_text_eq_ok_iff_spells fun field ↦ (hspells field).ne_nil]
  exact hspells

/-- The expressions that are read from some text are those in normal form, and these are
read from the text that is written for them. -/
theorem parse_iff_canonical (expression : Expression) :
    ((∃ input, parse input = .ok expression) ↔ expression.Canonical) ∧
      (parse expression.text = .ok expression ↔ expression.Canonical) := by
  refine ⟨⟨?_, ?_⟩, ⟨canonical_of_parse, parse_text⟩⟩
  · intro hparts
    obtain ⟨input, h⟩ := hparts
    exact canonical_of_parse h
  · intro h
    exact ⟨expression.text, parse_text h⟩

end Expression

end Recurrence
