import Recurrence.Proofs.Rereading

/-!
Which patterns and which expressions have the same text.

The text of a pattern shows what it was written for, whatever the bytes of the pattern are and
whether or not any domain holds them: `Pattern.ofWritten?` looks at the signs alone, and gives
every pattern back from its text, a list of one value as that value (`Pattern.ofWritten?_write`).
The fields of an expression stand between single spaces, and no pattern is written with one, so
the text of an expression is split into the texts of its patterns, empty ones included
(`Expression.splitOn_write`). Hence two expressions have the same text only where they are the
same but for lists of one value (`Expression.text_eq_text_iff`).
-/

set_option autoImplicit false
set_option relaxedAutoImplicit false

namespace Recurrence

open Recurrence.Text

namespace Pattern

/-! ### From a text to the pattern it was written for -/

/-- The byte that was written as digits. -/
def writtenByte? (digits : List Char) : Option UInt8 :=
  (Decimal.read? digits).map UInt8.ofNat

/-- The pattern that was written as a text, a list of one value as that value. Its shape is told
from the signs in the text, and its bytes may be any. -/
def ofWritten? (text : List Char) : Option Pattern :=
  match cut? '/' text with
  | some (base, digits) => do
    let increment ← writtenByte? digits
    if base = ['*'] then
      return step increment
    else
      match cut? '-' base with
      | some (left, right) =>
        return stepRange (← writtenByte? left) (← writtenByte? right) increment
      | none => return stepFrom (← writtenByte? base) increment
  | none =>
    match cut? '-' text with
    | some (left, right) => return range (← writtenByte? left) (← writtenByte? right)
    | none =>
      if text = ['*'] then
        some wildcard
      else if text = [] then
        some (list .empty)
      else
        ofValues <$> (text.splitOn ',').mapM writtenByte?

theorem writtenByte?_write (value : UInt8) :
    writtenByte? (Decimal.write value.toNat) = some value := by
  rw [writtenByte?, Decimal.read?_write, Option.map_some, UInt8.ofNat_toNat]

/-- A text is cut at the sign behind digits. -/
theorem cut?_write_append {separator : Char} (h : separator.isAlphanum = false) (number : Nat)
    (rest : List Char) :
    cut? separator (Decimal.write number ++ separator :: rest) =
      some (Decimal.write number, rest) :=
  cut?_eq_some_iff.mpr ⟨rfl, notMem_write h number⟩

theorem cut?_write {separator : Char} (h : separator.isAlphanum = false) (number : Nat) :
    cut? separator (Decimal.write number) = none :=
  cut?_eq_none_iff.mpr (notMem_write h number)

theorem mapM_writtenByte? (values : List UInt8) :
    (values.map fun value ↦ Decimal.write value.toNat).mapM writtenByte? = some values := by
  rw [List.mapM_map]
  simp only [Function.comp_def, writtenByte?_write]
  exact (List.mapM_pure).trans (congrArg some (List.map_id values))

/-- A text without other signs than commas was written for the pattern of the bytes in it. -/
theorem ofWritten?_of_entries {text : List Char} {values : List UInt8} (hslash : '/' ∉ text)
    (hhyphen : '-' ∉ text) (hstar : '*' ∉ text)
    (h : (text.splitOn ',').mapM writtenByte? = some values) :
    ofWritten? text = some (ofValues values) := by
  have hne_star : text ≠ ['*'] := by
    rintro rfl
    exact hstar List.mem_cons_self
  have hne_nil : text ≠ [] := by
    rintro rfl
    cases h
  rw [ofWritten?, cut?_eq_none_iff.mpr hslash, cut?_eq_none_iff.mpr hhyphen]
  dsimp only
  rw [if_neg hne_star, if_neg hne_nil, h]
  rfl

/-- Values between commas come back as the pattern of their list. -/
theorem ofWritten?_intercalate {values : List UInt8} (hne : values ≠ []) :
    ofWritten? ([','].intercalate (values.map fun value ↦ Decimal.write value.toNat)) =
      some (ofValues values) := by
  have hentries : values.map (fun value ↦ Decimal.write value.toNat) ≠ [] := by
    rwa [ne_eq, List.map_eq_nil_iff]
  have halphanum : ∀ entry ∈ values.map fun value ↦ Decimal.write value.toNat,
      ∀ c ∈ entry, c.isAlphanum = true := by
    intro entry hentry
    obtain ⟨value, -, rfl⟩ := List.mem_map.mp hentry
    exact (StandsFor.write value.toNat).isAlphanum
  have hfree {separator : Char} (hcomma : separator ≠ ',')
      (hseparator : separator.isAlphanum = false) :=
    notMem_intercalate_comma halphanum hcomma hseparator
  refine ofWritten?_of_entries (hfree (by decide) (by decide)) (hfree (by decide) (by decide))
    (hfree (by decide) (by decide)) ?_
  rw [splitOn_intercalate_comma hentries halphanum, mapM_writtenByte?]

/-- A text with a slash was written for a progression, by the bytes in front of the slash. -/
theorem ofWritten?_of_slash {base : List Char} (h : '/' ∉ base) (increment : UInt8) :
    ofWritten? (base ++ '/' :: Decimal.write increment.toNat) =
      if base = ['*'] then
        some (step increment)
      else
        match cut? '-' base with
        | some (left, right) => do
          return stepRange (← writtenByte? left) (← writtenByte? right) increment
        | none => do return stepFrom (← writtenByte? base) increment := by
  rw [ofWritten?, cut?_eq_some_iff.mpr ⟨rfl, h⟩]
  dsimp only
  rw [writtenByte?_write]
  rfl

/-- The pattern of the members of a set is the simpler form of the list. -/
theorem ofValues_members (values : ByteSet) :
    ofValues values.members = (list values).simplified := by
  rw [ofValues, ByteSet.ofList_members]
  rfl

/-- Every pattern comes back from its text, a list of one value as that value. -/
theorem ofWritten?_write (pattern : Pattern) :
    ofWritten? pattern.write = some pattern.simplified := by
  cases pattern with
  | number value =>
    have hvalues := ofWritten?_intercalate (List.cons_ne_nil value [])
    rw [List.map_singleton, List.intercalate_singleton] at hvalues
    exact hvalues
  | wildcard => rfl
  | step increment =>
    have hstar : '/' ∉ ['*'] := by decide
    exact ofWritten?_of_slash hstar increment
  | stepFrom start increment =>
    rw [write, ofWritten?_of_slash (notMem_write (by decide) _),
      if_neg (StandsFor.write start.toNat).ne_star, cut?_write (by decide)]
    dsimp only
    rw [writtenByte?_write]
    rfl
  | stepRange first last increment =>
    have hhyphen : '-' ∈ Decimal.write first.toNat ++ '-' :: Decimal.write last.toNat := by simp
    rw [write, ofWritten?_of_slash (notMem_write_range (by decide) (by decide) first last),
      if_neg (ne_star_of_mem hhyphen (by decide)), cut?_write_append (by decide)]
    dsimp only
    rw [writtenByte?_write, writtenByte?_write]
    rfl
  | range first last =>
    have hslash : '/' ∉ Decimal.write first.toNat ++ '-' :: Decimal.write last.toNat :=
      notMem_write_range (by decide) (by decide) first last
    rw [write, ofWritten?, cut?_eq_none_iff.mpr hslash, cut?_write_append (by decide)]
    dsimp only
    rw [writtenByte?_write, writtenByte?_write]
    rfl
  | list values =>
    rcases values with ⟨_ | ⟨first, others⟩, hascending⟩
    · rfl
    · rw [← ofValues_members]
      exact ofWritten?_intercalate (List.cons_ne_nil first others)

/-- Two patterns have the same text exactly where their simpler forms are the same. -/
theorem write_eq_write_iff {first second : Pattern} :
    first.write = second.write ↔ first.simplified = second.simplified := by
  constructor
  · intro h
    have hread := ofWritten?_write first
    rw [h, ofWritten?_write] at hread
    exact (Option.some.inj hread).symm
  · intro h
    rw [← write_simplified first, h, write_simplified]

end Pattern

/-! ### Expressions -/

namespace Expression

/-- The fields of an expression come back when its text is split at spaces. -/
theorem splitOn_write (expression : Expression) :
    expression.write.splitOn ' ' =
      Field.all.map fun field ↦ (expression.get field).write := by
  have hspace : ∀ part ∈ expression.patterns.map Pattern.write, ' ' ∉ part := by
    intro part hpart hin
    obtain ⟨pattern, -, rfl⟩ := List.mem_map.mp hpart
    have hblank : isBlank ' ' = false := Pattern.isBlank_eq_false_of_mem_write hin
    exact absurd hblank (by decide)
  rw [write, List.splitOn_intercalate ' ' hspace (List.cons_ne_nil _ _), patterns, List.map_map]
  rfl

/-- Expressions with the same text have the same text in every field. -/
theorem text_eq_text_iff_write {first second : Expression} :
    first.text = second.text ↔ ∀ field, (first.get field).write = (second.get field).write := by
  constructor
  · intro h field
    have hwrite : first.write = second.write := String.ofList_injective h
    have hfields := first.splitOn_write
    rw [hwrite, splitOn_write, List.map_inj_left] at hfields
    exact (hfields field (Field.mem_all field)).symm
  · intro h
    have hpatterns : first.patterns.map Pattern.write = second.patterns.map Pattern.write := by
      rw [patterns, patterns, List.map_map, List.map_map, List.map_inj_left]
      exact fun field _ ↦ h field
    rw [text, text, write, write, hpatterns]

/-- Expressions have the same simpler form where their patterns have. -/
theorem simplified_eq_simplified_iff {first second : Expression} :
    first.simplified = second.simplified ↔
      ∀ field, (first.get field).simplified = (second.get field).simplified := by
  constructor
  · intro h field
    rw [← get_simplified, h, get_simplified]
  · intro h
    refine eq_of_get fun field ↦ ?_
    rw [get_simplified, get_simplified, h field]

/-- Two expressions have the same text exactly where they are the same after every list of one
value is replaced by that value, whatever bytes they hold and whether or not they can be read.
So texts tell expressions apart, but for that one coincidence, which does not change what
matches. -/
theorem text_eq_text_iff (first second : Expression) :
    (first.text = second.text ↔ first.simplified = second.simplified) ∧
      (first.text = second.text →
        ∀ moment, first.matchesAt moment = second.matchesAt moment) := by
  have hsame : first.text = second.text ↔ first.simplified = second.simplified := by
    simp only [text_eq_text_iff_write, simplified_eq_simplified_iff, Pattern.write_eq_write_iff]
  refine ⟨hsame, fun h moment ↦ ?_⟩
  rw [← first.matchesAt_simplified, hsame.mp h, second.matchesAt_simplified]

/-- The one coincidence: a list of one value is written like that value. -/
example : (Pattern.list ⟨[7], by simp⟩).write = (Pattern.number 7).write := by
  decide

end Expression

end Recurrence
