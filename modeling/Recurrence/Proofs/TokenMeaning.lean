import Mathlib
import Recurrence.Pattern.Text

/-!
What the tokens of a pattern stand for, said without reading them.

`StandsFor` says which number a token stands for, in unbounded arithmetic: the number that
its digits denote, or the number of a name in any ASCII case. The names are written out in
`IsName`, and the table that the reader looks them up in has these and no others
(`Names.mem_table_iff`). A token stands for one number
at most (`StandsFor.unique`), and no separator occurs in it (`StandsFor.notMem`). Values and
steps are read exactly where tokens stand for them (`Pattern.readValue_eq_ok_iff`,
`Pattern.readStep_eq_ok_iff`), although they are read into words of 32 and of 8 bits.
-/

set_option autoImplicit false
set_option relaxedAutoImplicit false

namespace Recurrence

open Recurrence.Text

/-! ### Tokens -/

/-- The names in small letters, each with its number: weekdays count from Sunday = 0, months
from January = 1. -/
inductive IsName : String → Nat → Prop
  | sun : IsName "sun" 0
  | mon : IsName "mon" 1
  | tue : IsName "tue" 2
  | wed : IsName "wed" 3
  | thu : IsName "thu" 4
  | fri : IsName "fri" 5
  | sat : IsName "sat" 6
  | jan : IsName "jan" 1
  | feb : IsName "feb" 2
  | mar : IsName "mar" 3
  | apr : IsName "apr" 4
  | may : IsName "may" 5
  | jun : IsName "jun" 6
  | jul : IsName "jul" 7
  | aug : IsName "aug" 8
  | sep : IsName "sep" 9
  | oct : IsName "oct" 10
  | nov : IsName "nov" 11
  | dec : IsName "dec" 12

/-- A token stands for a number: a run of ASCII digits, of any length and with leading zeros
or without, for the number that it denotes, and a name in any ASCII case for its own. -/
inductive StandsFor : List Char → Nat → Prop
  | digits {token : List Char} (hne : token ≠ []) (hdigits : ∀ c ∈ token, c.isDigit = true) :
    StandsFor token (Nat.ofDigitChars 10 token 0)
  | name {token : List Char} {number : Nat}
    (hname : IsName (String.ofList (token.map Char.toLower)) number) : StandsFor token number

/-- A token stands for a value of a domain. -/
def IsValue (bounds : Bounds) (token : List Char) (value : UInt8) : Prop :=
  StandsFor token value.toNat ∧ bounds.Admits value.toNat

/-- A token is a run of ASCII digits for a number from 1 to the greatest value of a domain. -/
structure IsStep (bounds : Bounds) (token : List Char) (increment : UInt8) : Prop where
  ne_nil : token ≠ []
  digits : ∀ c ∈ token, c.isDigit = true
  denotes : Nat.ofDigitChars 10 token 0 = increment.toNat
  pos : 1 ≤ increment.toNat
  le_greatest : increment ≤ bounds.greatest

/-! ### Names -/

/-- A digit is not a letter. -/
theorem isAlpha_eq_false_of_isDigit {c : Char} (h : c.isDigit = true) : c.isAlpha = false := by
  have hbounds := Char.isDigit_iff_toNat.mp h
  simp only [Char.isAlpha, Char.isUpper, Char.isLower, Bool.or_eq_false_iff,
    Bool.and_eq_false_iff, decide_eq_false_iff_not, ge_iff_le, UInt32.le_iff_toNat_le,
    Char.toNat_val]
  simp at hbounds ⊢
  omega

namespace Names

/-- The table has every name with its number, and nothing else. -/
theorem mem_table_iff {name : List Char} {number : Nat} :
    (name, number) ∈ table ↔ IsName (String.ofList name) number := by
  constructor
  · intro h
    have hentries : ∀ entry ∈ table, IsName (String.ofList entry.1) entry.2 := by
      simp only [table, List.forall_mem_cons]
      exact ⟨.sun, .mon, .tue, .wed, .thu, .fri, .sat, .jan, .feb, .mar, .apr, .may, .jun, .jul,
        .aug, .sep, .oct, .nov, .dec, List.forall_mem_nil _⟩
    exact hentries _ h
  · intro h
    have hmem {word : String} (hword : IsName word number) : (word.toList, number) ∈ table := by
      cases hword <;> decide
    simpa using hmem h

/-- No name stands in the table twice. -/
theorem nodup_table : (table.map Prod.fst).Nodup := by decide

/-- A name has one number. -/
theorem number_unique {name : List Char} {first second : Nat} (hfirst : (name, first) ∈ table)
    (hsecond : (name, second) ∈ table) : first = second :=
  congrArg Prod.snd (List.inj_on_of_nodup_map nodup_table hfirst hsecond rfl)

/-- Names are written in small letters. -/
theorem isLower_of_mem_table {name : List Char} {number : Nat} (h : (name, number) ∈ table) :
    ∀ c ∈ name, c.isLower = true := by
  have hlower : ∀ entry ∈ table, ∀ c ∈ entry.1, c.isLower = true := by
    simp [table]
  exact hlower _ h

/-- Looking a token up finds the number of the name that it is in small letters. -/
theorem number?_eq_some_iff {token : List Char} {number : Nat} :
    number? token = some number ↔ IsName (String.ofList (token.map Char.toLower)) number := by
  rw [← mem_table_iff, number?]
  constructor
  · intro h
    obtain ⟨entry, hfind, rfl⟩ := Option.map_eq_some_iff.mp h
    have hname : entry.1 = token.map Char.toLower := by
      simpa using List.find?_some hfind
    rw [← hname]
    exact List.mem_of_find?_eq_some hfind
  · intro h
    cases hfind : table.find? fun entry ↦ entry.1 = token.map Char.toLower with
    | none =>
      have hnone := List.find?_eq_none.mp hfind _ h
      simp at hnone
    | some entry =>
      have hname : entry.1 = token.map Char.toLower := by
        simpa using List.find?_some hfind
      have hmem := List.mem_of_find?_eq_some hfind
      rw [← hname] at h
      rw [Option.map_some, number_unique hmem h]

/-- Letters of a token that is a name are letters. -/
theorem isAlpha_of_isName {token : List Char} {number : Nat}
    (h : IsName (String.ofList (token.map Char.toLower)) number) :
    ∀ c ∈ token, c.isAlpha = true := by
  intro c hc
  have hlower := isLower_of_mem_table (mem_table_iff.mpr h) c.toLower (List.mem_map_of_mem hc)
  rw [Char.isLower_toLower_eq_isAlpha] at hlower
  exact hlower

/-- A token that is a run of digits is not a name. -/
theorem not_isName_of_digits {token : List Char} {number : Nat} (hne : token ≠ [])
    (hdigits : ∀ c ∈ token, c.isDigit = true) :
    ¬ IsName (String.ofList (token.map Char.toLower)) number := by
  intro h
  obtain ⟨c, hc⟩ := List.exists_mem_of_ne_nil token hne
  have halpha := isAlpha_of_isName h c hc
  rw [isAlpha_eq_false_of_isDigit (hdigits c hc)] at halpha
  cases halpha

end Names

/-! ### Values and steps -/

namespace Text.Decimal

/-- A run of digits is read as the number that it denotes. -/
theorem read?_eq_some_iff {text : List Char} {number : Nat} :
    read? text = some number ↔
      text ≠ [] ∧ (∀ c ∈ text, c.isDigit = true) ∧ Nat.ofDigitChars 10 text 0 = number := by
  simp [read?, List.all_eq_true, and_assoc]

/-- Read digit by digit, a number is one that the digits denote and no greater than the
greatest. -/
theorem readUpTo?_eq_some_iff {greatest : Nat} {text : List Char} {number : Nat} :
    readUpTo? greatest text = some number ↔ read? text = some number ∧ number ≤ greatest := by
  rw [readUpTo?_eq_filter, Option.filter_eq_some_iff, decide_eq_true_eq]

end Text.Decimal

/-- A separator does not occur in a text of letters and digits. -/
theorem notMem_of_isAlphanum {separator : Char} {text : List Char}
    (h : ∀ c ∈ text, c.isAlphanum = true) (hseparator : separator.isAlphanum = false) :
    separator ∉ text := by
  intro hin
  rw [h separator hin] at hseparator
  cases hseparator

namespace StandsFor

variable {token : List Char} {number : Nat}

/-- Reading a token, with names resolved, finds the number that it stands for. -/
theorem read?_resolve_iff : Decimal.read? (Names.resolve token) = some number ↔
    StandsFor token number := by
  unfold Names.resolve
  cases hname : Names.number? token with
  | some found =>
    dsimp only
    have hfound := Names.number?_eq_some_iff.mp hname
    rw [Decimal.read?_write, Option.some.injEq]
    constructor
    · rintro rfl
      exact .name hfound
    · intro h
      rcases h with ⟨hne, hdigits⟩ | hother
      · exact absurd hfound (Names.not_isName_of_digits hne hdigits)
      · rw [Names.number?_eq_some_iff.mpr hother] at hname
        exact (Option.some.inj hname).symm
  | none =>
    dsimp only
    rw [Decimal.read?_eq_some_iff]
    constructor
    · intro h
      obtain ⟨hne, hdigits, rfl⟩ := h
      exact .digits hne hdigits
    · intro h
      rcases h with ⟨hne, hdigits⟩ | hother
      · exact ⟨hne, hdigits, rfl⟩
      · rw [Names.number?_eq_some_iff.mpr hother] at hname
        cases hname

/-- A token stands for one number. -/
theorem unique {other : Nat} (h : StandsFor token number) (hother : StandsFor token other) :
    number = other := by
  rw [← read?_resolve_iff] at h hother
  exact Option.some.inj (h.symm.trans hother)

/-- Tokens that stand for numbers consist of letters and digits. -/
theorem isAlphanum (h : StandsFor token number) : ∀ c ∈ token, c.isAlphanum = true := by
  intro c hc
  unfold Char.isAlphanum
  cases h with
  | digits _ hdigits => rw [hdigits c hc, Bool.or_true]
  | name hname => rw [Names.isAlpha_of_isName hname c hc, Bool.true_or]

/-- A separator does not occur in a token that stands for a number. -/
theorem notMem (h : StandsFor token number) {separator : Char}
    (hseparator : separator.isAlphanum = false) : separator ∉ token :=
  notMem_of_isAlphanum h.isAlphanum hseparator

/-- A star does not stand for a number. -/
theorem ne_star (h : StandsFor token number) : token ≠ ['*'] := by
  intro hstar
  have hfree : '*' ∉ token := h.notMem (by decide)
  rw [hstar] at hfree
  exact hfree List.mem_cons_self

end StandsFor

namespace Bounds

variable {bounds : Bounds} {token : List Char} {value : UInt8}

/-- A number of a domain is that of a byte. -/
theorem toNat_ofNat_of_le {number : Nat} (h : number ≤ bounds.greatest.toNat) :
    (UInt8.ofNat number).toNat = number :=
  UInt8.toNat_ofNat_of_lt' (Nat.lt_of_le_of_lt h bounds.greatest.toNat_lt)

/-- A value is found by reading exactly where the token stands for it. -/
theorem value?_eq_some_iff : bounds.value? token = some value ↔ IsValue bounds token value := by
  unfold value? IsValue
  rw [Option.bind_eq_some_iff]
  constructor
  · intro h
    obtain ⟨number, hread, hvalue⟩ := h
    rw [Decimal.readUpTo?_eq_some_iff, StandsFor.read?_resolve_iff] at hread
    split_ifs at hvalue with hadmits
    cases hvalue
    rw [toNat_ofNat_of_le hadmits.2]
    exact ⟨hread.1, hadmits⟩
  · intro h
    obtain ⟨hstands, hadmits⟩ := h
    have hlt := value.toNat_lt
    have hword : value.toNat ≤ greatestWord := by
      unfold greatestWord
      omega
    refine ⟨value.toNat, ?_, ?_⟩
    · rw [Decimal.readUpTo?_eq_some_iff, StandsFor.read?_resolve_iff]
      exact ⟨hstands, hword⟩
    · rw [if_pos hadmits, UInt8.ofNat_toNat]

end Bounds

namespace Pattern

variable {bounds : Bounds} {whole piece : List Char} {value : UInt8}

/-- A value is read exactly where the token stands for it. -/
theorem readValue_eq_ok_iff :
    readValue bounds whole piece = .ok value ↔ IsValue bounds piece value := by
  rw [← Bounds.value?_eq_some_iff]
  unfold readValue
  split <;> simp_all

/-- A step is read exactly where the token stands for it. -/
theorem readStep_eq_ok_iff :
    readStep bounds whole piece = .ok value ↔ IsStep bounds piece value := by
  unfold readStep
  constructor
  · intro h
    split at h
    · rename_i number hread
      rw [Decimal.readUpTo?_eq_some_iff, Decimal.read?_eq_some_iff] at hread
      obtain ⟨⟨hne, hdigits, hdenotes⟩, -⟩ := hread
      split_ifs at h with hbounds
      cases h
      have hvalue := Bounds.toNat_ofNat_of_le hbounds.2
      refine ⟨hne, hdigits, ?_, ?_, ?_⟩
      · rw [hvalue, hdenotes]
      · rw [hvalue]
        exact hbounds.1
      · rw [UInt8.le_iff_toNat_le, hvalue]
        exact hbounds.2
    · cases h
  · intro h
    have hlt := value.toNat_lt
    have hbyte : value.toNat ≤ greatestByte := by
      unfold greatestByte
      omega
    have hread : Decimal.readUpTo? greatestByte piece = some value.toNat := by
      rw [Decimal.readUpTo?_eq_some_iff, Decimal.read?_eq_some_iff]
      exact ⟨⟨h.ne_nil, h.digits, h.denotes⟩, hbyte⟩
    have hle := UInt8.le_iff_toNat_le.mp h.le_greatest
    rw [hread]
    dsimp only
    rw [if_pos ⟨h.pos, hle⟩, UInt8.ofNat_toNat]

end Pattern

end Recurrence
