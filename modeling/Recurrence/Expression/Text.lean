import Recurrence.Diagnostic
import Recurrence.Event
import Recurrence.Expression.Basic

/-!
The text of an expression: the texts of its five patterns, with one space between two
of them. The reader takes any white space around and between the fields and reports
the first field that is no pattern over its domain.
-/

set_option autoImplicit false
set_option relaxedAutoImplicit false

namespace Recurrence.Expression

open Recurrence.Text

/-- The patterns in the order of the text. -/
def patterns (expression : Expression) : List Pattern :=
  Field.all.map expression.get

/-- The text of an expression. -/
def write (expression : Expression) : List Char :=
  [' '].intercalate (expression.patterns.map Pattern.write)

/-- The text of an expression as a string. -/
def text (expression : Expression) : String :=
  String.ofList expression.write

/-- The pattern that a word of an input writes down for a field. A word that is none is entered
in the log before it is reported. -/
def readField (input : String) (field : Field) (word : Word) : ExceptT Diagnostic Logged Pattern :=
  match Pattern.read field.bounds word.text with
  | .ok pattern => return pattern
  | .error diagnostic => do
    Logged.enter (.invalidField input field word.text)
    throw (.field field word.text word.span input diagnostic.message)

/-- The expression that an input writes down, or the report about the first thing that
is wrong with it, with the log entries on the way. -/
def parseLogged (input : String) : Logged (Except Diagnostic Expression) :=
  ExceptT.run do
    match words input.toList with
    | [minute, hour, dayOfMonth, month, dayOfWeek] =>
      let minute ← readField input .minute minute
      let hour ← readField input .hour hour
      let dayOfMonth ← readField input .dayOfMonth dayOfMonth
      let month ← readField input .month month
      let dayOfWeek ← readField input .dayOfWeek dayOfWeek
      return { minute, hour, dayOfMonth, month, dayOfWeek }
    | found =>
      Logged.enter (.wrongFieldCount input found.length)
      throw (.fieldCount found.length input)

/-- What reading an input ends with. -/
def parse (input : String) : Except Diagnostic Expression :=
  (parseLogged input).result

/-- Whether an input writes down an expression, with the log entries of reading it. -/
def isValid (input : String) : Logged Bool :=
  Except.isOk <$> parseLogged input

end Recurrence.Expression
