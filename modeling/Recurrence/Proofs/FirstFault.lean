import Recurrence.Proofs.MaximalRuns
import Recurrence.Proofs.Rereading

/-!
What reading an input ends with, and the one log entry that it leaves when it fails.

Five words are texts for the five fields. Either each of them is read as a pattern over the
domain of its field, or there is a first field whose text is refused (`FirstRefused`,
`exists_expression_or_firstRefused`). Reading an input of five words ends with the patterns or
with the report on this first field, and an input with another number of words is reported as
such; the report carries the text, its place and the reason that reading the text alone gives
(`Expression.parseLogged_cases`).
-/

set_option autoImplicit false
set_option relaxedAutoImplicit false

namespace Recurrence

open Recurrence.Text

/-! ### Texts of five fields -/

section

variable {texts : Field → String}

/-- A field whose text is refused for a reason, while the texts of all fields before it are
read. -/
structure FirstRefused (texts : Field → String) (field : Field) (reason : String) : Prop where
  refused : Pattern.read field.bounds (texts field) = .error (.value reason)
  readBefore : ∀ earlier, earlier.index < field.index →
    ∃ pattern, Pattern.read earlier.bounds (texts earlier) = .ok pattern

/-- If no field is the first to be refused, every text is read. -/
theorem exists_read_of_not_firstRefused
    (h : ¬ ∃ field reason, FirstRefused texts field reason) (field : Field) :
    ∃ pattern, Pattern.read field.bounds (texts field) = .ok pattern := by
  induction field using (measure Field.index).wf.induction with
  | _ field ih =>
    cases hread : Pattern.read field.bounds (texts field) with
    | ok pattern => exact ⟨pattern, rfl⟩
    | error diagnostic =>
      obtain ⟨reason, rfl⟩ := Pattern.exists_reason_of_read hread
      exact absurd ⟨field, reason, hread, ih⟩ h

/-- Five texts are read as an expression, or one of them is the first to be refused. -/
theorem exists_expression_or_firstRefused (texts : Field → String) :
    (∃ expression : Expression,
      ∀ field, Pattern.read field.bounds (texts field) = .ok (expression.get field)) ∨
    ∃ field reason, FirstRefused texts field reason := by
  by_cases hrefused : ∃ field reason, FirstRefused texts field reason
  · exact Or.inr hrefused
  · choose pattern hread using exists_read_of_not_firstRefused hrefused
    refine Or.inl ⟨Expression.ofFields pattern, fun field ↦ ?_⟩
    rw [Expression.get_ofFields, hread]

end

namespace Expression

variable {input : String} {place : Field → Word}

/-! ### Reading an input -/

/-- Five words that are read for their fields make an expression, and nothing is entered in the
log. -/
theorem parseLogged_of_read {expression : Expression}
    (hplace : words input.toList = Field.all.map place)
    (hread : ∀ field, Pattern.read field.bounds (place field).text = .ok (expression.get field)) :
    parseLogged input = ⟨.ok expression, []⟩ := by
  have hpure (field : Field) :
      readField input field (place field) = pure (expression.get field) :=
    readField_of_read (hread field)
  rw [parseLogged_of_place hplace, hpure, hpure, hpure, hpure, hpure]
  rfl

theorem parse_of_read {expression : Expression} (hplace : words input.toList = Field.all.map place)
    (hread : ∀ field, Pattern.read field.bounds (place field).text = .ok (expression.get field)) :
    parse input = .ok expression :=
  congrArg Logged.result (parseLogged_of_read hplace hread)

/-- Of five words the first that is refused for its field is reported. -/
theorem parse_of_firstRefused {field : Field} {reason : String}
    (hplace : words input.toList = Field.all.map place)
    (h : FirstRefused (fun field ↦ (place field).text) field reason) :
    parse input = .error (.field field (place field).text (place field).span input reason) :=
  congrArg Logged.result (parseLogged_of_refused hplace h.readBefore h.refused)

/-- The words of an input are its maximal runs, in order and at their places. Another number of
words than five is reported. Five words are texts for the five fields: either all are read, and
make the expression without a log entry, or the first that is refused is reported with its place
and the reason that reading it alone gives. A report is logged once, with what it is about. -/
theorem parseLogged_cases (input : String) :
    (∀ word, word ∈ words input.toList ↔ IsRunFrom 0 input.toList word) ∧
    ((words input.toList).Pairwise fun first second ↦ first.span.stop < second.span.start) ∧
    (∀ word ∈ words input.toList, word.span.start < word.span.stop ∧
      slice? word.span input.toList = some word.letters) ∧
    ((words input.toList).length ≠ 5 →
      parseLogged input = ⟨.error (.fieldCount (words input.toList).length input),
        [.wrongFieldCount input (words input.toList).length]⟩) ∧
    ((words input.toList).length = 5 → ∃ place : Field → Word,
      words input.toList = Field.all.map place ∧
      ((∃ expression : Expression,
          (∀ field, Pattern.read field.bounds (place field).text = .ok (expression.get field)) ∧
          parseLogged input = ⟨.ok expression, []⟩) ∨
        ∃ field reason, FirstRefused (fun field ↦ (place field).text) field reason ∧
          parseLogged input =
            ⟨.error (.field field (place field).text (place field).span input reason),
              [.invalidField input field (place field).text]⟩)) := by
  have hruns (word : Word) : word ∈ words input.toList ↔ IsRunFrom 0 input.toList word :=
    mem_wordsFrom_iff
  refine ⟨hruns, pairwise_wordsFrom 0 input.toList, fun word hword ↦ ?_, fun hcount ↦ ?_,
    fun hcount ↦ ?_⟩
  · have hrun := (hruns word).mp hword
    exact ⟨hrun.span_start_lt_stop, hrun.slice?_span⟩
  · exact parseLogged_of_length_ne hcount
  · obtain ⟨place, hplace⟩ := exists_place hcount
    refine ⟨place, hplace, ?_⟩
    rcases exists_expression_or_firstRefused fun field ↦ (place field).text with
      ⟨expression, hread⟩ | ⟨field, reason, hrefused⟩
    · exact Or.inl ⟨expression, hread, parseLogged_of_read hplace hread⟩
    · exact Or.inr ⟨field, reason, hrefused,
        parseLogged_of_refused hplace hrefused.readBefore hrefused.refused⟩

end Expression

end Recurrence
