import Mathlib.Data.List.Induction
import Mathlib.Data.String.Basic
import Recurrence.Expression.Document
import Recurrence.Proofs.DistinctTexts

/-!
The document of an expression loses nothing of it.

Collecting entries under different keys keeps each of them, and the keys ascend
(`Document.lookup_collect`, `Document.pairwise_keys_collect`). The keys of an expression are the
names of its fields with underscores for hyphens, which are the keys by which fields are known, so
every pattern is found and read back under the key of its field
(`Expression.patternOfFields?_fieldsDocument`). Two expressions have the same document only where
they are the same, although a list of one value is written like that value.
-/

set_option autoImplicit false
set_option relaxedAutoImplicit false

namespace Recurrence

/-! ### Collecting entries -/

namespace Document

variable {key : String} {value : Document} {entries : List (String × Document)}

/-- Putting an entry among entries with ascending keys leaves the keys ascending. -/
theorem pairwise_keys_put (h : (entries.map Prod.fst).Pairwise (· < ·)) :
    ((put key value entries).map Prod.fst).Pairwise (· < ·) := by
  induction entries with
  | nil => exact List.pairwise_singleton _ key
  | cons entry rest ih =>
    rw [List.map_cons, List.pairwise_cons] at h
    obtain ⟨hhead, hrest⟩ := h
    unfold put
    split_ifs with hlt heq
    · refine List.pairwise_cons.mpr ⟨fun other hother ↦ ?_, List.pairwise_cons.mpr ⟨hhead, hrest⟩⟩
      rcases List.mem_cons.mp hother with rfl | hmem
      · exact hlt
      · exact hlt.trans (hhead other hmem)
    · subst heq
      exact List.pairwise_cons.mpr ⟨hhead, hrest⟩
    · refine List.pairwise_cons.mpr ⟨fun other hother ↦ ?_, ih hrest⟩
      rcases mem_keys_put.mp hother with rfl | hmem
      · exact lt_of_le_of_ne (not_lt.mp hlt) (Ne.symm heq)
      · exact hhead other hmem

/-- Entries are collected one after another. -/
theorem collect_concat (entries : List (String × Document)) (key : String) (value : Document) :
    ∃ collected, collect entries = object collected ∧
      collect (entries ++ [(key, value)]) = object (put key value collected) := by
  refine ⟨_, rfl, ?_⟩
  rw [collect, List.foldl_concat]

/-- The keys of collected entries ascend. -/
theorem pairwise_keys_collect (entries : List (String × Document)) :
    (collect entries).keys.Pairwise (· < ·) := by
  induction entries using List.reverseRecOn with
  | nil => exact List.Pairwise.nil
  | append_singleton entries entry ih =>
    obtain ⟨collected, hbefore, hafter⟩ := collect_concat entries entry.1 entry.2
    rw [hbefore] at ih
    rw [hafter]
    exact pairwise_keys_put ih

/-- Collecting entries keeps their keys and adds none. -/
theorem mem_keys_collect : key ∈ (collect entries).keys ↔ key ∈ entries.map Prod.fst := by
  induction entries using List.reverseRecOn with
  | nil => rfl
  | append_singleton entries entry ih =>
    obtain ⟨collected, hbefore, hafter⟩ := collect_concat entries entry.1 entry.2
    rw [hbefore] at ih
    rw [hafter, List.map_append, List.mem_append, ← ih, List.map_singleton, List.mem_singleton,
      or_comm]
    exact mem_keys_put

/-- An entry whose key no other entry has is found among the collected ones. -/
theorem lookup_collect (hkeys : (entries.map Prod.fst).Nodup) (hmem : (key, value) ∈ entries) :
    entry? key (collect entries) = some value := by
  -- The entry that is put last has a key of its own, so it covers none of the earlier ones.
  induction entries using List.reverseRecOn with
  | nil => cases hmem
  | append_singleton entries entry ih =>
    obtain ⟨collected, hbefore, hafter⟩ := collect_concat entries entry.1 entry.2
    rw [List.map_append, List.map_singleton, List.nodup_append] at hkeys
    obtain ⟨hentries, -, hdistinct⟩ := hkeys
    rw [hafter, lookup_put]
    rcases List.mem_append.mp hmem with hearlier | hlast
    · have hne : key ≠ entry.1 :=
        hdistinct key (List.mem_map_of_mem hearlier) entry.1 (List.mem_singleton_self _)
      rw [if_neg hne.symm, ← hbefore, ih hentries hearlier]
    · rw [← List.mem_singleton.mp hlast, if_pos rfl]

end Document

/-! ### Expressions -/

namespace Expression

/-- The patterns of an expression under the keys of their fields. -/
theorem fieldsDocument_eq_collect (expression : Expression) :
    expression.fieldsDocument =
      .collect (Field.all.map fun field ↦ (field.key, (expression.get field).document)) := by
  simp only [fieldsDocument, Field.underscored_eq_key]

/-- The keys of the patterns of an expression. -/
theorem keys_collected (expression : Expression) :
    (Field.all.map fun field ↦ (field.key, (expression.get field).document)).map Prod.fst =
      ["minute", "hour", "day_of_month", "month", "day_of_week"] :=
  rfl

theorem keys_fieldsDocument_perm (expression : Expression) :
    expression.fieldsDocument.keys.Perm
      ["minute", "hour", "day_of_month", "month", "day_of_week"] := by
  rw [fieldsDocument_eq_collect, List.perm_ext_iff_of_nodup
    ((Document.pairwise_keys_collect _).imp ne_of_lt) (by decide)]
  intro key
  rw [Document.mem_keys_collect, keys_collected]

/-- Under the key of a field stands its tagged pattern. -/
theorem lookup_fieldsDocument (expression : Expression) (field : Field) :
    expression.fieldsDocument.entry? field.key = some (expression.get field).document := by
  rw [fieldsDocument_eq_collect]
  refine Document.lookup_collect ?_ (List.mem_map_of_mem (Field.mem_all field))
  rw [keys_collected]
  decide

/-- The pattern of a field comes back from under its key. -/
theorem patternOfFields?_fieldsDocument (expression : Expression) (field : Field) :
    patternOfFields? expression.fieldsDocument field = some (expression.get field) := by
  rw [patternOfFields?, lookup_fieldsDocument, Option.bind_some, Pattern.ofDocument?_document]

/-- An expression comes back from its patterns under the keys of their fields. -/
theorem ofFieldsDocument?_fieldsDocument (expression : Expression) :
    ofFieldsDocument? expression.fieldsDocument = some expression := by
  simp only [ofFieldsDocument?, patternOfFields?_fieldsDocument, Option.bind_eq_bind,
    Option.bind_some]
  rfl

/-- Expressions with the same document are the same. -/
theorem document_injective : Function.Injective document := by
  intro first second h
  have hfields : first.fieldsDocument = second.fieldsDocument := by
    simp only [document, Document.object.injEq, List.cons.injEq, Prod.mk.injEq] at h
    exact h.2.1.2
  have hread := ofFieldsDocument?_fieldsDocument first
  rw [hfields, ofFieldsDocument?_fieldsDocument] at hread
  exact (Option.some.inj hread).symm

/-- A list of one value is written like that value. -/
theorem text_set_singleton (expression : Expression) (field : Field) (value : UInt8) :
    (expression.set field (.list (.ofList [value]))).text =
      (expression.set field (.number value)).text := by
  rw [text_eq_text_iff_write]
  intro place
  by_cases hplace : place = field
  · subst hplace
    rw [get_set_self, get_set_self, Pattern.write_eq_write_iff]
    rfl
  · rw [get_set_of_ne _ _ hplace, get_set_of_ne _ _ hplace]

/-- The document of an expression holds its text, and under five keys its patterns. The keys are
the names of the fields with underscores for hyphens, and they are the keys by which the fields
are known. The pattern of a field comes back from under its key as it was, whatever bytes it
holds, and so do all five together. Hence two expressions have the same document exactly where
they are the same, also where they have the same text. -/
theorem document_keeps_patterns (expression : Expression) :
    expression.document.keys = ["expression", "fields"] ∧
    expression.document.entry? "expression" = some (.text expression.text) ∧
    expression.document.entry? "fields" = some expression.fieldsDocument ∧
    expression.fieldsDocument.keys.Perm
      ["minute", "hour", "day_of_month", "month", "day_of_week"] ∧
    (∀ field : Field, field.underscored = field.key ∧
      Field.ofKey? field.underscored = some field ∧
      (expression.fieldsDocument.entry? field.underscored).bind Pattern.ofDocument? =
        some (expression.get field)) ∧
    ofFieldsDocument? expression.fieldsDocument = some expression ∧
    (∀ other : Expression, expression.document = other.document ↔ expression = other) ∧
    ∀ (field : Field) (value : UInt8),
      (expression.set field (.list (.ofList [value]))).text =
          (expression.set field (.number value)).text ∧
        (expression.set field (.list (.ofList [value]))).document ≠
          (expression.set field (.number value)).document := by
  refine ⟨rfl, rfl, rfl, expression.keys_fieldsDocument_perm, fun field ↦ ?_,
    expression.ofFieldsDocument?_fieldsDocument, fun other ↦ document_injective.eq_iff,
    fun field value ↦ ⟨expression.text_set_singleton field value, fun hdocument ↦ ?_⟩⟩
  · rw [field.underscored_eq_key]
    exact ⟨rfl, field.ofKey?_key, expression.patternOfFields?_fieldsDocument field⟩
  · have hsame := congrArg (get · field) (document_injective hdocument)
    rw [get_set_self, get_set_self] at hsame
    cases hsame

end Expression

end Recurrence
