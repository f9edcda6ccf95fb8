import Recurrence.Proofs.FirstFault

/-!
What the ASCII case of letters changes about reading an input: nothing but the letters.

`Recased` relates two texts that differ in the case of letters, and they do where both have the
same small letters (`Text.recased_iff`). White space is no letter and letters take up one byte, so
recased texts have their words at the same places (`Text.map_small_wordsFrom`). Separators and
digits are no letters either, and names are looked up in small letters, so recased texts spell the
same patterns (`Spells.recased`). Recased inputs are then read as one expression, or they are
refused for the same number of words or at the same field and place
(`Expression.parse_of_recased`).
-/

set_option autoImplicit false
set_option relaxedAutoImplicit false

namespace Recurrence

namespace Text

/-! ### Letters -/

section

variable {c d : Char}

/-- A letter may stand in the other ASCII case; any other character stays as it is. -/
def CaseChange (c d : Char) : Prop :=
  d = c ∨ d = c.toLower ∨ d = c.toUpper

/-- Characters differ in the case at most where their small letters are the same. -/
theorem caseChange_iff : CaseChange c d ↔ c.toLower = d.toLower := by
  constructor
  · rintro (rfl | rfl | rfl)
    · rfl
    · exact (Char.toLower_toLower_eq_toLower c).symm
    · exact (Char.toLower_toUpper_eq_toLower c).symm
  · intro hsame
    by_cases hsmall : d.isLower = true
    · rw [Char.toLower_eq_of_not_isUpper (Char.not_isUpper_of_isLower hsmall)] at hsame
      exact Or.inr (Or.inl hsame.symm)
    · have hcapital : d = c.toUpper := by
        rw [← Char.toUpper_toLower_eq_toUpper c, hsame, Char.toUpper_toLower_eq_toUpper,
          Char.toUpper_eq_of_not_isLower hsmall]
      exact Or.inr (Or.inr hcapital)

/-- Only ASCII letters have another case: the long s is not the small letter of the S. -/
example : ¬ CaseChange 'S' 'ſ' := by
  rw [caseChange_iff]
  decide

/-- What is no letter is its own small letter. -/
theorem toLower_of_isAlpha_eq_false (h : c.isAlpha = false) : c.toLower = c := by
  rw [Char.isAlpha, Bool.or_eq_false_iff] at h
  exact Char.toLower_eq_of_not_isUpper (Bool.eq_false_iff.mp h.1)

/-- What is no letter has no other case. -/
theorem CaseChange.eq_of_isAlpha_eq_false (h : CaseChange c d) (hc : c.isAlpha = false) :
    d = c := by
  have hsame := caseChange_iff.mp h
  have hd : d.isAlpha = false := by
    rw [← Char.isAlpha_toLower_eq_isAlpha, ← hsame, Char.isAlpha_toLower_eq_isAlpha, hc]
  rw [← toLower_of_isAlpha_eq_false hc, hsame, toLower_of_isAlpha_eq_false hd]

/-- Letters are ASCII characters behind the digits. -/
theorem toNat_of_isAlpha (h : c.isAlpha = true) : 0x40 < c.toNat ∧ c.toNat < 0x7F := by
  simp only [Char.isAlpha, Char.isUpper, Char.isLower, Bool.or_eq_true, Bool.and_eq_true,
    decide_eq_true_eq, ge_iff_le, UInt32.le_iff_toNat_le, Char.toNat_val] at h
  simp at h
  omega

/-- White space is no letter, in either case. -/
@[simp]
theorem isBlank_toLower (c : Char) : isBlank c.toLower = isBlank c := by
  by_cases hletter : c.isAlpha = true
  · have hunblank {d : Char} (hd : d.isAlpha = true) : isBlank d = false := by
      have hbounds := toNat_of_isAlpha hd
      exact isBlank_eq_false (by omega) (by omega)
    rw [hunblank hletter, hunblank (by rw [Char.isAlpha_toLower_eq_isAlpha, hletter])]
  · rw [toLower_of_isAlpha_eq_false (Bool.eq_false_of_not_eq_true hletter)]

/-- A letter takes up as many bytes in either case. -/
@[simp]
theorem utf8Size_toLower (c : Char) : c.toLower.utf8Size = c.utf8Size := by
  by_cases hletter : c.isAlpha = true
  · have hone {d : Char} (hd : d.isAlpha = true) : d.utf8Size = 1 := by
      have hbounds := toNat_of_isAlpha hd
      rw [Char.utf8Size_eq_one_iff, UInt32.le_iff_toNat_le]
      exact hbounds.2.le
    rw [hone hletter, hone (by rw [Char.isAlpha_toLower_eq_isAlpha, hletter])]
  · rw [toLower_of_isAlpha_eq_false (Bool.eq_false_of_not_eq_true hletter)]

end

/-! ### Texts -/

/-- A text is another one with the ASCII case of some letters changed. -/
def Recased : List Char → List Char → Prop :=
  List.Forall₂ CaseChange

section

variable {text other before after : List Char} {separator : Char}

/-- Texts differ in the case of letters where their small letters are the same. -/
theorem recased_iff : Recased text other ↔ text.map Char.toLower = other.map Char.toLower := by
  rw [← List.forall₂_eq_eq_eq, List.forall₂_map_left_iff, List.forall₂_map_right_iff]
  exact ⟨List.Forall₂.imp fun _ _ ↦ caseChange_iff.mp,
    List.Forall₂.imp fun _ _ ↦ caseChange_iff.mpr⟩

theorem Recased.symm (h : Recased text other) : Recased other text :=
  recased_iff.mpr (recased_iff.mp h).symm

/-- A text without letters has no other case. -/
theorem Recased.eq_of_isAlpha_eq_false (h : Recased text other)
    (htext : ∀ c ∈ text, c.isAlpha = false) : other = text := by
  induction h with
  | nil => rfl
  | cons hfirst _ ih =>
    rw [List.forall_mem_cons] at htext
    rw [hfirst.eq_of_isAlpha_eq_false htext.1, ih htext.2]

/-- A run of digits has no other case. -/
theorem Recased.eq_of_isDigit (h : Recased text other)
    (htext : ∀ c ∈ text, c.isDigit = true) : other = text :=
  h.eq_of_isAlpha_eq_false fun c hc ↦ isAlpha_eq_false_of_isDigit (htext c hc)

/-- A separator that is no letter stays where it is. -/
theorem Recased.exists_separator (h : Recased (before ++ separator :: after) other)
    (hseparator : separator.isAlpha = false) :
    ∃ front back, other = front ++ separator :: back ∧ Recased before front ∧
      Recased after back := by
  induction before generalizing other with
  | nil =>
    obtain ⟨found, back, hfound, hback, rfl⟩ := List.forall₂_cons_left_iff.mp h
    rw [hfound.eq_of_isAlpha_eq_false hseparator]
    exact ⟨[], back, rfl, List.Forall₂.nil, hback⟩
  | cons first before ih =>
    obtain ⟨found, rest, hfound, hrest, rfl⟩ := List.forall₂_cons_left_iff.mp h
    obtain ⟨front, back, rfl, hfront, hback⟩ := ih hrest
    exact ⟨found :: front, back, rfl, List.Forall₂.cons hfound hfront, hback⟩

/-- Entries between separators that are no letters are recased one by one. -/
theorem Recased.exists_entries {entries : List (List Char)}
    (h : Recased ([separator].intercalate entries) other)
    (hseparator : separator.isAlpha = false) :
    ∃ others, other = [separator].intercalate others ∧ List.Forall₂ Recased entries others := by
  induction entries generalizing other with
  | nil => exact ⟨[], List.forall₂_nil_left_iff.mp h, .nil⟩
  | cons entry rest ih =>
    cases rest with
    | nil =>
      rw [List.intercalate_singleton] at h
      exact ⟨[other], List.intercalate_singleton.symm, .cons h .nil⟩
    | cons next rest =>
      rw [List.intercalate_cons_cons, List.append_assoc, List.singleton_append] at h
      obtain ⟨front, back, rfl, hfront, hback⟩ := h.exists_separator hseparator
      obtain ⟨others, rfl, hothers⟩ := ih hback
      obtain ⟨found, others, -, -, rfl⟩ := List.forall₂_cons_left_iff.mp hothers
      refine ⟨front :: found :: others, ?_, .cons hfront hothers⟩
      rw [List.intercalate_cons_cons, List.append_assoc, List.singleton_append]

end

/-- What stands in one of two related lists is related to something in the other. -/
theorem exists_mem_of_forall₂ {α β : Type} {related : α → β → Prop} {entries : List α}
    {others : List β} (h : List.Forall₂ related entries others) {other : β}
    (hother : other ∈ others) : ∃ entry ∈ entries, related entry other := by
  induction h with
  | nil => cases hother
  | cons hfirst _ ih =>
    rcases List.mem_cons.mp hother with rfl | hrest
    · exact ⟨_, List.mem_cons_self, hfirst⟩
    · obtain ⟨entry, hentry, hrelated⟩ := ih hrest
      exact ⟨entry, List.mem_cons_of_mem _ hentry, hrelated⟩

/-! ### Words -/

namespace Word

/-- A word in small letters, at its place. -/
def small (word : Word) : Word :=
  ⟨word.start, word.letters.map Char.toLower⟩

end Word

section

variable {text before letters after : List Char}

@[simp]
theorem byteCount_map_toLower (text : List Char) :
    byteCount (text.map Char.toLower) = byteCount text := by
  induction text with
  | nil => rfl
  | cons first rest ih =>
    rw [List.map_cons, byteCount_cons, byteCount_cons, utf8Size_toLower, ih]

@[simp]
theorem Word.span_small (word : Word) : word.small.span = word.span := by
  rw [span, span, small, byteCount_map_toLower]

/-- In small letters a run stays a run. -/
theorem IsMaximal.map_toLower (h : IsMaximal before letters after) :
    IsMaximal (before.map Char.toLower) (letters.map Char.toLower) (after.map Char.toLower) where
  ne_nil := by
    rw [ne_eq, List.map_eq_nil_iff]
    exact h.ne_nil
  unblank := by
    simpa only [List.forall_mem_map, isBlank_toLower] using h.unblank
  blankBefore := by
    simpa [List.getLast?_map] using h.blankBefore
  blankAfter := by
    simpa [List.head?_map] using h.blankAfter

/-- A text in small letters has its words at the same places. -/
theorem map_small_wordsFrom (start : Nat) (text : List Char) :
    (wordsFrom start text).map Word.small = wordsFrom start (text.map Char.toLower) := by
  induction text using induction_on_runs generalizing start with
  | nil =>
    rw [List.map_nil, wordsFrom]
    rfl
  | blank first rest hblank ih =>
    have hsmall : isBlank first.toLower = true := by
      rw [isBlank_toLower, hblank]
    rw [List.map_cons, wordsFrom_cons_of_isBlank hblank, wordsFrom_cons_of_isBlank hsmall,
      utf8Size_toLower, ih]
  | run letters rest hmaximal ih =>
    rw [List.map_append, wordsFrom_run hmaximal, wordsFrom_run hmaximal.map_toLower,
      byteCount_map_toLower, List.map_cons, ih]
    rfl

end

end Text

open Recurrence.Text

/-! ### Patterns -/

section

variable {bounds : Bounds} {token other : List Char} {value : UInt8}

/-- A recased token stands for the same number: digits have no case, and a name is one in any. -/
theorem StandsFor.recased {number : Nat} (h : StandsFor token number)
    (hsame : Recased token other) : StandsFor other number := by
  cases h with
  | digits hne hdigits =>
    rw [hsame.eq_of_isDigit hdigits]
    exact .digits hne hdigits
  | name hname =>
    rw [recased_iff.mp hsame] at hname
    exact .name hname

theorem IsValue.recased (h : IsValue bounds token value) (hsame : Recased token other) :
    IsValue bounds other value :=
  ⟨h.1.recased hsame, h.2⟩

/-- A value that stands among entries stands among the recased entries. -/
theorem exists_isValue_recased {entries others : List (List Char)}
    (h : List.Forall₂ Recased entries others)
    (hentries : ∃ entry ∈ entries, IsValue bounds entry value) :
    ∃ other ∈ others, IsValue bounds other value := by
  obtain ⟨entry, hentry, hvalue⟩ := hentries
  obtain ⟨other, hother, hrecased⟩ := exists_mem_of_forall₂ h.flip hentry
  exact ⟨other, hother, hvalue.recased hrecased⟩

theorem IsStep.recased (h : IsStep bounds token value) (hsame : Recased token other) :
    IsStep bounds other value := by
  rw [hsame.eq_of_isDigit h.digits]
  exact h

/-- A recased text spells the same pattern. -/
theorem Spells.recased {text : List Char} {pattern : Pattern} (h : Spells bounds text pattern)
    (hsame : Recased text other) : Spells bounds other pattern := by
  have hnoLetter : ∀ c ∈ ['*'], c.isAlpha = false := List.forall_mem_singleton.mpr (by decide)
  cases h with
  | wildcard =>
    rw [hsame.eq_of_isAlpha_eq_false hnoLetter]
    exact .wildcard
  | step hstep =>
    rename_i token increment
    have hsplit : Recased (['*'] ++ '/' :: token) other := hsame
    obtain ⟨star, back, rfl, hstar, hback⟩ := hsplit.exists_separator (by decide)
    rw [hstar.eq_of_isAlpha_eq_false hnoLetter]
    exact .step (hstep.recased hback)
  | stepFrom hstart hstep =>
    obtain ⟨base, increment, rfl, hbase, hincrement⟩ := hsame.exists_separator (by decide)
    exact .stepFrom (hstart.recased hbase) (hstep.recased hincrement)
  | range hfirst hlast hle =>
    obtain ⟨left, right, rfl, hleft, hright⟩ := hsame.exists_separator (by decide)
    exact .range (hfirst.recased hleft) (hlast.recased hright) hle
  | list hentries hvalues hmem hdistinct =>
    obtain ⟨others, rfl, hothers⟩ := hsame.exists_entries (by decide)
    rw [hothers.length_eq] at hentries
    refine .list hentries (fun other hother ↦ ?_) (fun value ↦ ?_) hdistinct
    · obtain ⟨entry, hentry, hrecased⟩ := exists_mem_of_forall₂ hothers hother
      obtain ⟨value, hvalue⟩ := hvalues entry hentry
      exact ⟨value, hvalue.recased hrecased⟩
    · rw [hmem]
      have hback := hothers.flip.imp fun _ _ ↦ Recased.symm
      exact ⟨exists_isValue_recased hothers, exists_isValue_recased hback⟩
  | same hentries hvalues =>
    obtain ⟨others, rfl, hothers⟩ := hsame.exists_entries (by decide)
    rw [hothers.length_eq] at hentries
    refine .same hentries fun other hother ↦ ?_
    obtain ⟨entry, hentry, hrecased⟩ := exists_mem_of_forall₂ hothers hother
    exact (hvalues entry hentry).recased hrecased
  | number hvalue => exact .number (hvalue.recased hsame)

end

/-! ### Inputs -/

section

variable {texts others : Field → String}

/-- A recased text that is read for a field is read as the same pattern. -/
theorem Pattern.read_recased {bounds : Bounds} {text other : String} {pattern : Pattern}
    (h : read bounds text = .ok pattern) (hsame : Recased text.toList other.toList) :
    read bounds other = .ok pattern :=
  read_eq_ok_iff.mpr ((read_eq_ok_iff.mp h).recased hsame)

/-- Of recased texts the same field is the first to be refused. -/
theorem FirstRefused.recased {field : Field} {reason : String}
    (h : FirstRefused texts field reason)
    (hsame : ∀ field, Recased (texts field).toList (others field).toList) :
    ∃ otherReason, FirstRefused others field otherReason := by
  cases hother : Pattern.read field.bounds (others field) with
  | ok pattern =>
    have hread := Pattern.read_recased hother (hsame field).symm
    rw [h.refused] at hread
    cases hread
  | error diagnostic =>
    obtain ⟨otherReason, rfl⟩ := Pattern.exists_reason_of_read hother
    refine ⟨otherReason, hother, fun earlier hlt ↦ ?_⟩
    obtain ⟨pattern, hread⟩ := h.readBefore earlier hlt
    exact ⟨pattern, Pattern.read_recased hread (hsame earlier)⟩

end

namespace Expression

variable {input other : String}

/-- Recased inputs have the same words in small letters. -/
theorem map_small_words_eq (h : Recased input.toList other.toList) :
    (words input.toList).map Word.small = (words other.toList).map Word.small := by
  rw [words, words, map_small_wordsFrom, map_small_wordsFrom, recased_iff.mp h]

/-- Recased inputs have the same number of words. -/
theorem length_words_eq (h : Recased input.toList other.toList) :
    (words other.toList).length = (words input.toList).length := by
  rw [← List.length_map Word.small, ← map_small_words_eq h, List.length_map]

/-- Five words of a recased input are those of the input recased, at the same places. -/
theorem exists_place_recased {place : Field → Word} (h : Recased input.toList other.toList)
    (hplace : words input.toList = Field.all.map place) :
    ∃ otherPlace : Field → Word, words other.toList = Field.all.map otherPlace ∧
      ∀ field, (otherPlace field).span = (place field).span ∧
        Recased (place field).text.toList (otherPlace field).text.toList := by
  have hcount : (words other.toList).length = 5 := by
    rw [length_words_eq h, hplace]
    rfl
  obtain ⟨otherPlace, hother⟩ := exists_place hcount
  have hwords := map_small_words_eq h
  rw [hplace, hother, List.map_map, List.map_map, List.map_inj_left] at hwords
  refine ⟨otherPlace, hother, fun field ↦ ?_⟩
  have hsmall : (place field).small = (otherPlace field).small :=
    hwords field (Field.mem_all field)
  constructor
  · rw [← Word.span_small, ← hsmall, Word.span_small]
  · rw [Word.text, Word.text, String.toList_ofList, String.toList_ofList, recased_iff]
    exact congrArg Word.letters hsmall

/-- Recased inputs are read as the same expression, or both have the same wrong number of words,
or both are refused at the same field with recased words at the same place. -/
theorem parse_of_recased (h : Recased input.toList other.toList) :
    (∃ expression, parse input = .ok expression ∧ parse other = .ok expression) ∨
    (∃ found, parse input = .error (.fieldCount found input) ∧
      parse other = .error (.fieldCount found other)) ∨
    ∃ field span token otherToken reason otherReason,
      Recased token.toList otherToken.toList ∧
      parse input = .error (.field field token span input reason) ∧
      parse other = .error (.field field otherToken span other otherReason) := by
  by_cases hcount : (words input.toList).length = 5
  · obtain ⟨place, hplace⟩ := exists_place hcount
    obtain ⟨otherPlace, hotherPlace, hsame⟩ := exists_place_recased h hplace
    rcases exists_expression_or_firstRefused fun field ↦ (place field).text with
      ⟨expression, hread⟩ | ⟨field, reason, hrefused⟩
    · refine Or.inl ⟨expression, parse_of_read hplace hread, ?_⟩
      exact parse_of_read hotherPlace fun field ↦
        Pattern.read_recased (hread field) (hsame field).2
    · obtain ⟨otherReason, hotherRefused⟩ := hrefused.recased fun field ↦ (hsame field).2
      have hother := parse_of_firstRefused hotherPlace hotherRefused
      rw [(hsame field).1] at hother
      exact Or.inr (Or.inr ⟨field, (place field).span, _, _, _, _, (hsame field).2,
        parse_of_firstRefused hplace hrefused, hother⟩)
  · have hother : (words other.toList).length ≠ 5 := by
      rw [length_words_eq h]
      exact hcount
    refine Or.inr (Or.inl ⟨_, parse_of_length_ne hcount, ?_⟩)
    rw [parse_of_length_ne hother, length_words_eq h]

/-- Names in mixed case are read as those in small letters. -/
theorem parse_mixedCase_names :
    Recased "0 9 * jan mon-fri".toList "0 9 * JAN Mon-fRI".toList ∧
      parse "0 9 * JAN Mon-fRI" = .ok ⟨.number 0, .number 9, .wildcard, .number 1, .range 1 5⟩ := by
  have hrecased : Recased "0 9 * jan mon-fri".toList "0 9 * JAN Mon-fRI".toList := by
    rw [recased_iff]
    decide
  have hparse : parse "0 9 * jan mon-fri" =
      .ok ⟨.number 0, .number 9, .wildcard, .number 1, .range 1 5⟩ := by
    cbv
  refine ⟨hrecased, ?_⟩
  rcases parse_of_recased hrecased with ⟨expression, hread, hother⟩ | ⟨_, hcount, -⟩ |
    ⟨_, _, _, _, _, _, -, hrefused, -⟩
  · rw [← hparse, hread, hother]
  · rw [hparse] at hcount
    cases hcount
  · rw [hparse] at hrefused
    cases hrefused

end Expression

end Recurrence
