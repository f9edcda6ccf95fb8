import Recurrence.Diagnostic
import Recurrence.Pattern.Meaning
import Recurrence.Proofs.TokenMeaning

/-!
The texts of patterns, said as a grammar and not as a way of reading.

`Spells` has one rule for each shape, over the values and steps that tokens stand for. The
reader looks for a slash first, then for a hyphen, then for a comma; the grammar knows
nothing of that order. Both agree: what is spelled is read (`Pattern.parse_of_spells`) and
what is read is spelled (`Pattern.spells_of_parse`), since no separator occurs in a value.
Every text is read or reported (`Pattern.read_iff_spells`).
-/

set_option autoImplicit false
set_option relaxedAutoImplicit false

namespace Recurrence

open Recurrence.Text

/-! ### Results one after another -/

theorem bind_eq_ok_iff {ε α β : Type} {first : Except ε α} {next : α → Except ε β} {result : β} :
    (first >>= next) = .ok result ↔ ∃ value, first = .ok value ∧ next value = .ok result := by
  cases first with
  | error fault =>
    constructor
    · intro h
      cases h
    · intro hparts
      obtain ⟨value, ⟨⟩, -⟩ := hparts
  | ok value =>
    constructor
    · intro h
      exact ⟨value, rfl, h⟩
    · intro hparts
      obtain ⟨_, ⟨⟩, h⟩ := hparts
      exact h

theorem map_eq_ok_iff {ε α β : Type} {first : Except ε α} {change : α → β} {result : β} :
    change <$> first = .ok result ↔ ∃ value, first = .ok value ∧ change value = result := by
  cases first with
  | error fault =>
    constructor
    · intro h
      cases h
    · intro hparts
      obtain ⟨value, ⟨⟩, -⟩ := hparts
  | ok value =>
    constructor
    · intro h
      exact ⟨value, rfl, Except.ok.inj h⟩
    · intro hparts
      obtain ⟨_, ⟨⟩, rfl⟩ := hparts
      rfl

/-! ### Texts and sets -/

/-- What occurs in parts with separators between them occurs in a part or is a separator. -/
theorem mem_of_mem_intercalate {separator c : Char} {parts : List (List Char)}
    (h : c ∈ [separator].intercalate parts) : c = separator ∨ ∃ part ∈ parts, c ∈ part := by
  induction parts with
  | nil => cases h
  | cons part rest ih =>
    cases rest with
    | nil =>
      rw [List.intercalate_singleton] at h
      exact Or.inr ⟨part, List.mem_cons_self, h⟩
    | cons next rest =>
      rw [List.intercalate_cons_cons, List.mem_append, List.mem_append, List.mem_singleton] at h
      rcases h with (h | h) | h
      · exact Or.inr ⟨part, List.mem_cons_self, h⟩
      · exact Or.inl h
      · rcases ih h with heq | ⟨other, hother, hmem⟩
        · exact Or.inl heq
        · exact Or.inr ⟨other, List.mem_cons_of_mem _ hother, hmem⟩

/-- Between two parts there is a separator. -/
theorem mem_intercalate {separator : Char} {parts : List (List Char)} (h : 2 ≤ parts.length) :
    separator ∈ [separator].intercalate parts := by
  cases parts with
  | nil => cases h
  | cons part rest =>
    cases rest with
    | nil =>
      rw [List.length_singleton] at h
      omega
    | cons next rest =>
      rw [List.intercalate_cons_cons]
      simp

section

variable {separator : Char} {entries : List (List Char)}

/-- No separator but the comma occurs in entries of letters and digits between commas. -/
theorem notMem_intercalate_comma (h : ∀ entry ∈ entries, ∀ c ∈ entry, c.isAlphanum = true)
    (hcomma : separator ≠ ',') (hseparator : separator.isAlphanum = false) :
    separator ∉ [','].intercalate entries := by
  intro hmem
  rcases mem_of_mem_intercalate hmem with heq | ⟨entry, hentry, hin⟩
  · exact hcomma heq
  · exact notMem_of_isAlphanum (h entry hentry) hseparator hin

/-- Entries of letters and digits come back when the text with commas between them is split. -/
theorem splitOn_intercalate_comma (hne : entries ≠ [])
    (h : ∀ entry ∈ entries, ∀ c ∈ entry, c.isAlphanum = true) :
    ([','].intercalate entries).splitOn ',' = entries :=
  List.splitOn_intercalate ',' (fun entry hentry ↦
    notMem_of_isAlphanum (h entry hentry) (by decide)) hne

end

/-- A text with a separator is split into two parts at least. -/
theorem two_le_length_splitOn {separator : Char} {text : List Char} (h : separator ∈ text) :
    2 ≤ (text.splitOn separator).length := by
  obtain ⟨before, after, rfl⟩ := List.append_of_mem h
  rw [List.splitOn_append_cons_self, List.length_append]
  have hbefore := List.length_pos_iff.mpr (List.splitOn_ne_nil separator before)
  have hafter := List.length_pos_iff.mpr (List.splitOn_ne_nil separator after)
  omega

/-- A set that has the values of a list as its members is the set of the list. -/
theorem ByteSet.ofList_eq_of_mem {values : List UInt8} {set : ByteSet}
    (h : ∀ value, value ∈ set.members ↔ value ∈ values) : ofList values = set := by
  have hmem (value : UInt8) : value ∈ (ofList values).members ↔ value ∈ set.members := by
    rw [mem_ofList, h]
  have hperm := (List.perm_ext_iff_of_nodup ((ofList values).ascending.imp UInt8.ne_of_lt)
    (set.ascending.imp UInt8.ne_of_lt)).mpr hmem
  have hmembers : (ofList values).members = set.members :=
    hperm.eq_of_pairwise (fun _ _ _ _ hlt hgt ↦ absurd hlt (UInt8.lt_asymm hgt))
      (ofList values).ascending set.ascending
  rw [← ofList_members (ofList values), hmembers, ofList_members]

/-- A text with another character in it is not a star. -/
theorem ne_star_of_mem {c : Char} {text : List Char} (h : c ∈ text) (hc : c ≠ '*') :
    text ≠ ['*'] := by
  intro hstar
  rw [hstar, List.mem_singleton] at h
  exact hc h

/-! ### The grammar -/

/-- A text spells a pattern over a domain. -/
inductive Spells (bounds : Bounds) : List Char → Pattern → Prop
  /-- Anything, `*` -/
  | wildcard : Spells bounds ['*'] .wildcard
  /-- Steps through the domain, `*/STEP` -/
  | step {token : List Char} {increment : UInt8} (hstep : IsStep bounds token increment) :
    Spells bounds ('*' :: '/' :: token) (.step increment)
  /-- Steps from a value on, `VALUE/STEP` -/
  | stepFrom {base token : List Char} {start increment : UInt8}
    (hstart : IsValue bounds base start) (hstep : IsStep bounds token increment) :
    Spells bounds (base ++ '/' :: token) (.stepFrom start increment)
  /-- A range that does not run downwards, `VALUE-VALUE` -/
  | range {left right : List Char} {first last : UInt8} (hfirst : IsValue bounds left first)
    (hlast : IsValue bounds right last) (hle : first ≤ last) :
    Spells bounds (left ++ '-' :: right) (.range first last)
  /-- Two or more values between commas that are not all the same -/
  | list {entries : List (List Char)} {values : ByteSet} (hentries : 2 ≤ entries.length)
    (hvalues : ∀ entry ∈ entries, ∃ value, IsValue bounds entry value)
    (hmem : ∀ value, value ∈ values.members ↔ ∃ entry ∈ entries, IsValue bounds entry value)
    (hdistinct : 2 ≤ values.members.length) :
    Spells bounds ([','].intercalate entries) (.list values)
  /-- Two or more times the same value between commas -/
  | same {entries : List (List Char)} {value : UInt8} (hentries : 2 ≤ entries.length)
    (hvalues : ∀ entry ∈ entries, IsValue bounds entry value) :
    Spells bounds ([','].intercalate entries) (.number value)
  /-- One value, `VALUE` -/
  | number {token : List Char} {value : UInt8} (hvalue : IsValue bounds token value) :
    Spells bounds token (.number value)

namespace Pattern

variable {bounds : Bounds} {whole piece : List Char} {value : UInt8}

/-- A list of pieces is read exactly where each of them stands for the value at its place. -/
theorem mapM_readValue_eq_ok_iff {pieces : List (List Char)} {values : List UInt8} :
    pieces.mapM (readValue bounds whole) = .ok values ↔
      pieces.map bounds.value? = values.map some := by
  induction pieces generalizing values with
  | nil =>
    constructor
    · rintro ⟨⟩
      rfl
    · intro h
      rw [List.map_eq_nil_iff.mp h.symm]
      rfl
  | cons piece rest ih =>
    rw [List.mapM_cons, bind_eq_ok_iff, List.map_cons]
    constructor
    · intro hparts
      obtain ⟨value, hvalue, hrest⟩ := hparts
      obtain ⟨found, hfound, ⟨⟩⟩ := bind_eq_ok_iff.mp hrest
      rw [readValue_eq_ok_iff, ← Bounds.value?_eq_some_iff] at hvalue
      rw [hvalue, ih.mp hfound, List.map_cons]
    · intro h
      obtain ⟨value, found, rfl, hvalue, hfound⟩ := List.map_eq_cons_iff.mp h.symm
      have hread : readValue bounds whole piece = .ok value :=
        readValue_eq_ok_iff.mpr (Bounds.value?_eq_some_iff.mp hvalue.symm)
      exact ⟨value, hread, bind_eq_ok_iff.mpr ⟨found, ih.mpr hfound.symm, rfl⟩⟩

/-! ### One shape at a time -/

variable {pattern : Pattern}

theorem readProgression_eq_ok_iff {base token : List Char} :
    readProgression bounds whole base token = .ok pattern ↔
      ∃ increment, IsStep bounds token increment ∧
        (base = ['*'] ∧ pattern = .step increment ∨
          base ≠ ['*'] ∧ ∃ start, IsValue bounds base start ∧
            pattern = .stepFrom start increment) := by
  unfold readProgression
  rw [bind_eq_ok_iff]
  refine exists_congr fun increment ↦ ?_
  rw [readStep_eq_ok_iff]
  refine and_congr_right fun _ ↦ ?_
  by_cases hstar : base = ['*']
  · rw [if_pos hstar]
    constructor
    · rintro ⟨⟩
      exact Or.inl ⟨hstar, rfl⟩
    · intro h
      rcases h with ⟨-, rfl⟩ | ⟨hne, -⟩
      · rfl
      · exact absurd hstar hne
  · rw [if_neg hstar, bind_eq_ok_iff]
    constructor
    · intro h
      obtain ⟨start, hstart, ⟨⟩⟩ := h
      exact Or.inr ⟨hstar, start, readValue_eq_ok_iff.mp hstart, rfl⟩
    · intro h
      rcases h with ⟨heq, -⟩ | ⟨-, start, hstart, rfl⟩
      · exact absurd heq hstar
      · exact ⟨start, readValue_eq_ok_iff.mpr hstart, rfl⟩

theorem readRange_eq_ok_iff {left right : List Char} :
    readRange bounds whole left right = .ok pattern ↔
      ∃ first last, IsValue bounds left first ∧ IsValue bounds right last ∧ first ≤ last ∧
        pattern = .range first last := by
  unfold readRange
  rw [bind_eq_ok_iff]
  refine exists_congr fun first ↦ ?_
  rw [bind_eq_ok_iff, readValue_eq_ok_iff]
  constructor
  · intro h
    obtain ⟨hfirst, last, hlast, hresult⟩ := h
    rw [readValue_eq_ok_iff] at hlast
    split_ifs at hresult with hlt
    cases hresult
    exact ⟨last, hfirst, hlast, UInt8.not_lt.mp hlt, rfl⟩
  · intro h
    obtain ⟨last, hfirst, hlast, hle, rfl⟩ := h
    refine ⟨hfirst, last, readValue_eq_ok_iff.mpr hlast, ?_⟩
    rw [if_neg (UInt8.not_lt.mpr hle)]
    rfl

/-- The values of a list are those that its entries stand for. -/
theorem mem_iff_of_map_value? {entries : List (List Char)} {values : List UInt8}
    (h : entries.map bounds.value? = values.map some) :
    value ∈ values ↔ ∃ entry ∈ entries, IsValue bounds entry value := by
  have hmem : value ∈ values ↔ some value ∈ entries.map bounds.value? := by
    rw [h]
    simp
  rw [hmem, List.mem_map]
  simp only [Bounds.value?_eq_some_iff]

/-- Entries that stand for values have a list of these. -/
theorem exists_map_value? {entries : List (List Char)}
    (h : ∀ entry ∈ entries, ∃ value, IsValue bounds entry value) :
    ∃ values : List UInt8, entries.map bounds.value? = values.map some := by
  induction entries with
  | nil => exact ⟨[], rfl⟩
  | cons entry rest ih =>
    obtain ⟨value, hvalue⟩ := h entry List.mem_cons_self
    obtain ⟨values, hvalues⟩ := ih fun other hother ↦ h other (List.mem_cons_of_mem _ hother)
    refine ⟨value :: values, ?_⟩
    rw [List.map_cons, List.map_cons, hvalues, Bounds.value?_eq_some_iff.mpr hvalue]

/-- A list that was read spells its values, or the one value that it repeats. -/
theorem spells_ofValues {entries : List (List Char)} {values : List UInt8}
    (hentries : 2 ≤ entries.length) (h : entries.map bounds.value? = values.map some) :
    Spells bounds ([','].intercalate entries) (ofValues values) := by
  have hmem (value : UInt8) : value ∈ (ByteSet.ofList values).members ↔
      ∃ entry ∈ entries, IsValue bounds entry value := by
    rw [ByteSet.mem_ofList, mem_iff_of_map_value? h]
  have hvalues (entry : List Char) (hentry : entry ∈ entries) :
      ∃ value, IsValue bounds entry value := by
    have hsome : bounds.value? entry ∈ values.map some := by
      rw [← h]
      exact List.mem_map_of_mem hentry
    obtain ⟨value, -, hvalue⟩ := List.mem_map.mp hsome
    exact ⟨value, Bounds.value?_eq_some_iff.mp hvalue.symm⟩
  unfold ofValues
  split
  · rename_i value hsingle
    refine .same hentries fun entry hentry ↦ ?_
    obtain ⟨other, hother⟩ := hvalues entry hentry
    have hsame := (hmem other).mpr ⟨entry, hentry, hother⟩
    rw [hsingle, List.mem_singleton] at hsame
    rw [← hsame]
    exact hother
  · rename_i hmany
    refine .list hentries hvalues hmem ?_
    obtain ⟨entry, hentry⟩ := List.exists_mem_of_length_pos (Nat.lt_of_succ_lt hentries)
    obtain ⟨value, hvalue⟩ := hvalues entry hentry
    have hsome := (hmem value).mpr ⟨entry, hentry, hvalue⟩
    cases hmembers : (ByteSet.ofList values).members with
    | nil =>
      rw [hmembers] at hsome
      cases hsome
    | cons first rest =>
      cases rest with
      | nil => exact absurd hmembers (hmany first)
      | cons second rest => exact Nat.le_add_left 2 rest.length

/-- A list of values that are not all the same is itself. -/
theorem ofValues_eq_list {values : List UInt8} {set : ByteSet}
    (hmem : ∀ value, value ∈ set.members ↔ value ∈ values) (hdistinct : 2 ≤ set.members.length) :
    ofValues values = .list set := by
  unfold ofValues
  rw [ByteSet.ofList_eq_of_mem hmem]
  split
  · rename_i value hsingle
    rw [hsingle, List.length_singleton] at hdistinct
    omega
  · rfl

/-- A list that repeats one value is that value. -/
theorem ofValues_eq_number {values : List UInt8} (hne : values ≠ [])
    (h : ∀ other ∈ values, other = value) : ofValues values = .number value := by
  have hset : ByteSet.ofList values = ⟨[value], List.pairwise_singleton _ _⟩ := by
    refine ByteSet.ofList_eq_of_mem fun other ↦ ?_
    rw [List.mem_singleton]
    constructor
    · rintro rfl
      obtain ⟨found, hfound⟩ := List.exists_mem_of_ne_nil values hne
      rw [← h found hfound]
      exact hfound
    · exact h other
  unfold ofValues
  rw [hset]

/-! ### Every shape -/

/-- What is read is spelled. -/
theorem spells_of_parse (h : parse bounds whole = .ok pattern) : Spells bounds whole pattern := by
  unfold parse at h
  split at h
  · rename_i hstar
    cases h
    rw [hstar]
    exact .wildcard
  · split at h
    · rename_i base token hcut
      obtain ⟨rfl, -⟩ := cut?_eq_some_iff.mp hcut
      obtain ⟨increment, hstep, ⟨rfl, rfl⟩ | ⟨-, start, hstart, rfl⟩⟩ :=
        readProgression_eq_ok_iff.mp h
      · exact .step hstep
      · exact .stepFrom hstart hstep
    · split at h
      · rename_i left right hcut
        obtain ⟨rfl, -⟩ := cut?_eq_some_iff.mp hcut
        obtain ⟨first, last, hfirst, hlast, hle, rfl⟩ := readRange_eq_ok_iff.mp h
        exact .range hfirst hlast hle
      · split at h
        · rename_i hcomma
          obtain ⟨values, hvalues, rfl⟩ := map_eq_ok_iff.mp h
          rw [mapM_readValue_eq_ok_iff] at hvalues
          have hspells := spells_ofValues (two_le_length_splitOn hcomma) hvalues
          rw [List.intercalate_splitOn] at hspells
          exact hspells
        · obtain ⟨value, hvalue, rfl⟩ := map_eq_ok_iff.mp h
          exact .number (readValue_eq_ok_iff.mp hvalue)

/-- A text with a slash is read as a progression. -/
theorem parse_of_slash {base token : List Char} (hbase : '/' ∉ base) :
    parse bounds (base ++ '/' :: token) =
      readProgression bounds (base ++ '/' :: token) base token := by
  have hslash : '/' ∈ base ++ '/' :: token := List.mem_append_right _ List.mem_cons_self
  have hne := ne_star_of_mem hslash (by decide)
  rw [parse, if_neg hne, cut?_eq_some_iff.mpr ⟨rfl, hbase⟩]

/-- A text with a hyphen and no slash is read as a range. -/
theorem parse_of_hyphen {left right : List Char} (hslash : '/' ∉ left ++ '-' :: right)
    (hleft : '-' ∉ left) :
    parse bounds (left ++ '-' :: right) =
      readRange bounds (left ++ '-' :: right) left right := by
  have hhyphen : '-' ∈ left ++ '-' :: right := List.mem_append_right _ List.mem_cons_self
  have hne := ne_star_of_mem hhyphen (by decide)
  rw [parse, if_neg hne, cut?_eq_none_iff.mpr hslash, cut?_eq_some_iff.mpr ⟨rfl, hleft⟩]

/-- Entries of letters and digits between commas are read one by one. -/
theorem parse_of_entries {entries : List (List Char)} (hentries : 2 ≤ entries.length)
    (halphanum : ∀ entry ∈ entries, ∀ c ∈ entry, c.isAlphanum = true) :
    parse bounds ([','].intercalate entries) =
      ofValues <$> entries.mapM (readValue bounds ([','].intercalate entries)) := by
  have hcomma : ',' ∈ [','].intercalate entries := mem_intercalate hentries
  have hne := ne_star_of_mem hcomma (by decide)
  have hsplit := splitOn_intercalate_comma (by rintro rfl; cases hentries) halphanum
  rw [parse, if_neg hne,
    cut?_eq_none_iff.mpr (notMem_intercalate_comma halphanum (by decide) (by decide)),
    cut?_eq_none_iff.mpr (notMem_intercalate_comma halphanum (by decide) (by decide))]
  dsimp only
  rw [if_pos hcomma, hsplit]

/-- Values between commas are read as the pattern of their list. -/
theorem parse_of_values {entries : List (List Char)} {values : List UInt8}
    (hentries : 2 ≤ entries.length)
    (hvalues : ∀ entry ∈ entries, ∃ value, IsValue bounds entry value)
    (h : entries.map bounds.value? = values.map some) :
    parse bounds ([','].intercalate entries) = .ok (ofValues values) := by
  have halphanum : ∀ entry ∈ entries, ∀ c ∈ entry, c.isAlphanum = true := by
    intro entry hentry
    obtain ⟨value, hvalue⟩ := hvalues entry hentry
    exact hvalue.1.isAlphanum
  rw [parse_of_entries hentries halphanum, map_eq_ok_iff]
  exact ⟨values, mapM_readValue_eq_ok_iff.mpr h, rfl⟩

/-- A text without separators is read as a value. -/
theorem parse_of_plain (hstar : whole ≠ ['*']) (hslash : '/' ∉ whole) (hhyphen : '-' ∉ whole)
    (hcomma : ',' ∉ whole) : parse bounds whole = number <$> readValue bounds whole whole := by
  rw [parse, if_neg hstar, cut?_eq_none_iff.mpr hslash, cut?_eq_none_iff.mpr hhyphen]
  dsimp only
  rw [if_neg hcomma]

/-- What is spelled is read. -/
theorem parse_of_spells (h : Spells bounds whole pattern) : parse bounds whole = .ok pattern := by
  cases h with
  | wildcard => rfl
  | step hstep =>
    rename_i token increment
    have hslash : '/' ∉ ['*'] := by decide
    rw [show '*' :: '/' :: token = ['*'] ++ '/' :: token from rfl, parse_of_slash hslash,
      readProgression_eq_ok_iff]
    exact ⟨increment, hstep, Or.inl ⟨rfl, rfl⟩⟩
  | stepFrom hstart hstep =>
    rename_i base token start increment
    have hstar : base ≠ ['*'] := hstart.1.ne_star
    rw [parse_of_slash (hstart.1.notMem (by decide)), readProgression_eq_ok_iff]
    exact ⟨increment, hstep, Or.inr ⟨hstar, start, hstart, rfl⟩⟩
  | range hfirst hlast hle =>
    rename_i left right first last
    have hslash : '/' ∉ left ++ '-' :: right := by
      rw [List.mem_append, List.mem_cons]
      intro hparts
      rcases hparts with hleft | hhyphen | hright
      · exact hfirst.1.notMem (by decide) hleft
      · cases hhyphen
      · exact hlast.1.notMem (by decide) hright
    rw [parse_of_hyphen hslash (hfirst.1.notMem (by decide)), readRange_eq_ok_iff]
    exact ⟨first, last, hfirst, hlast, hle, rfl⟩
  | list hentries hvalues hmem hdistinct =>
    obtain ⟨found, hfound⟩ := exists_map_value? hvalues
    rw [parse_of_values hentries hvalues hfound, ofValues_eq_list (fun value ↦ ?_) hdistinct]
    rw [hmem, mem_iff_of_map_value? hfound]
  | same hentries hvalues =>
    rename_i entries value
    have hsome (entry : List Char) (hentry : entry ∈ entries) :
        ∃ value, IsValue bounds entry value := ⟨value, hvalues entry hentry⟩
    obtain ⟨found, hfound⟩ := exists_map_value? hsome
    obtain ⟨entry, hentry⟩ := List.exists_mem_of_length_pos (Nat.lt_of_succ_lt hentries)
    have hmem : value ∈ found :=
      (mem_iff_of_map_value? hfound).mpr ⟨entry, hentry, hvalues entry hentry⟩
    have hall : ∀ other ∈ found, other = value := by
      intro other hother
      obtain ⟨entry, hentry, hstands, -⟩ := (mem_iff_of_map_value? hfound).mp hother
      exact UInt8.toNat_inj.mp (hstands.unique (hvalues entry hentry).1)
    rw [parse_of_values hentries hsome hfound, ofValues_eq_number (List.ne_nil_of_mem hmem) hall]
  | number hvalue =>
    rw [parse_of_plain hvalue.1.ne_star (hvalue.1.notMem (by decide))
      (hvalue.1.notMem (by decide)) (hvalue.1.notMem (by decide)), map_eq_ok_iff]
    exact ⟨_, readValue_eq_ok_iff.mpr hvalue, rfl⟩

/-- Reading finds the patterns that are spelled. -/
theorem read_eq_ok_iff {text : String} :
    read bounds text = .ok pattern ↔ Spells bounds text.toList pattern := by
  unfold read
  constructor
  · intro h
    cases hparse : parse bounds text.toList with
    | error fault =>
      rw [hparse] at h
      cases h
    | ok found =>
      rw [hparse] at h
      cases h
      exact spells_of_parse hparse
  · intro h
    rw [parse_of_spells h]
    rfl

theorem exists_reason_of_read {text : String} {diagnostic : Diagnostic}
    (h : read bounds text = .error diagnostic) : ∃ reason, diagnostic = .value reason := by
  unfold read at h
  cases hparse : parse bounds text.toList with
  | error fault =>
    rw [hparse] at h
    cases h
    exact ⟨fault.message, rfl⟩
  | ok pattern =>
    rw [hparse] at h
    cases h

/-- A text that is not read is reported by a reason. -/
theorem read_eq_error_iff {text : String} :
    (∃ reason, read bounds text = .error (.value reason)) ↔
      ∀ pattern, ¬ Spells bounds text.toList pattern := by
  simp only [← read_eq_ok_iff]
  cases hread : read bounds text with
  | error diagnostic =>
    obtain ⟨reason, rfl⟩ := exists_reason_of_read hread
    exact iff_of_true ⟨reason, rfl⟩ nofun
  | ok found =>
    constructor
    · intro hparts
      obtain ⟨reason, ⟨⟩⟩ := hparts
    · intro h
      exact absurd rfl (h found)

/-- A text is read as a pattern over a domain where it spells the pattern, and every text
that spells none is reported by a reason. No text is read as a range with a step. -/
theorem read_iff_spells (bounds : Bounds) (text : String) :
    (∀ pattern, read bounds text = .ok pattern ↔ Spells bounds text.toList pattern) ∧
      ((∃ reason, read bounds text = .error (.value reason)) ↔
        ∀ pattern, ¬ Spells bounds text.toList pattern) ∧
      ∀ first last increment, read bounds text ≠ .ok (.stepRange first last increment) := by
  refine ⟨fun pattern ↦ read_eq_ok_iff, read_eq_error_iff, fun first last increment h ↦ ?_⟩
  rw [read_eq_ok_iff] at h
  generalize text.toList = letters at h
  cases h

/-- A slash is looked for before a hyphen, so a range cannot have a step. -/
example : parse ⟨0, 59⟩ ['1', '-', '5', '/', '2'] =
    .error (.badValue ['1', '-', '5'] ['1', '-', '5', '/', '2'] ⟨0, 59⟩) := by
  rfl

end Pattern

end Recurrence
