import Recurrence.Pattern.Text
import Recurrence.Text.Words

/-!
What is reported about an input that cannot be used, as one line and as an
illustration that repeats the input and underlines the field at fault. A text is read
as a pattern with such a report in place of the fault.
-/

set_option autoImplicit false
set_option relaxedAutoImplicit false

namespace Recurrence

open Recurrence.Text

/-- A report about an unusable input. -/
inductive Diagnostic
  /-- The input does not have five fields. -/
  | fieldCount (found : Nat) (input : String)
  /-- A text is no pattern over its domain. -/
  | value (reason : String)
  /-- A field of an input is no pattern over its domain. -/
  | field (field : Field) (token : String) (span : Span) (input : String) (reason : String)
  /-- A rule cannot be built. -/
  | rule (reason : String)
deriving DecidableEq

namespace Diagnostic

/-- The report on a text that is no pattern over its domain. -/
def ofFault (fault : PatternFault) : Diagnostic :=
  value fault.message

/-- The field that a report is about, if it is about one. -/
def failedField? : Diagnostic → Option Field
  | field name _ _ _ _ => some name
  | _ => none

/-- The report on one line. -/
def message : Diagnostic → String
  | fieldCount found _ => "expected 5 cron fields, got " ++ Nat.repr found
  | value reason => reason
  | field name token _ _ reason =>
    "invalid " ++ name.shownIn {} ++ " field '" ++ token ++ "' (accepted range " ++
      name.bounds.text ++ "): " ++ reason
  | rule reason => reason

/-- The report as a headline. -/
def headline (diagnostic : Diagnostic) : String :=
  "error: " ++ diagnostic.message

/-- A line that underlines a span of an input which stands two columns in: one caret
for each character, and one for an empty span. -/
def underline? (span : Span) (input : String) : Option String :=
  (slice? ⟨0, span.start⟩ input.toList).bind fun before ↦
    (slice? span input.toList).map fun marked ↦
      String.ofList (List.replicate (before.length + 2) ' ' ++
        List.replicate (max marked.length 1) '^')

/-- The report with the input it is about. A span that does not lie between characters
of its input cannot be underlined. -/
def illustrate? : Diagnostic → Option String
  | diagnostic@(field _ _ span input _) =>
    (underline? span input).map fun marks ↦
      diagnostic.headline ++ "\n  " ++ input ++ "\n" ++ marks
  | diagnostic@(fieldCount _ input) => some (diagnostic.headline ++ "\n  " ++ input)
  | diagnostic@(value _) => some diagnostic.headline
  | diagnostic@(rule _) => some diagnostic.headline

end Diagnostic

/-- The pattern over a domain that a text writes down, or the report on the text. -/
def Pattern.read (bounds : Bounds) (text : String) : Except Diagnostic Pattern :=
  (parse bounds text.toList).mapError Diagnostic.ofFault

end Recurrence
