import Recurrence.Calendar.Timestamp
import Recurrence.Command.Arguments
import Recurrence.Expression.Document
import Recurrence.Expression.Rule
import Recurrence.Occurrences.Basic

/-!
What the command answers: a status, the text of its standard output, and the notices
on its standard error. Standard output stays empty unless the status is success.

How arguments are read as options, how a text is read as a date-time, and what the present time
is come from outside (`Surroundings`). A run is described for any of them; `Surroundings.standard`
has the readers of this library.
-/

set_option autoImplicit false
set_option relaxedAutoImplicit false

namespace Recurrence.Command

open Recurrence.Calendar

/-! ### Answers -/

/-- How a run ends. -/
inductive Status
  | success
  | failure
  | misuse
deriving DecidableEq

/-- The exit code of a status. -/
def Status.code : Status → Nat
  | success => 0
  | failure => 1
  | misuse => 2

/-- A line, or a group of lines, on standard error. -/
inductive Notice
  /-- The text with which the arguments are rejected. -/
  | misuse (text : String)
  | noExpression
  | noAnchor
  /-- The value of a setting is no date-time, for the reason that its reader gives. -/
  | badDateTime (setting : Setting) (reason : String)
  | rejected (diagnostic : Diagnostic)
  | nothingInRange
  | nothingUpcoming
  | capped
deriving DecidableEq

/-- The most occurrences that a listing without an end shows. -/
def listingLimit : Nat := 100

/-- The most occurrences that are shown at all when they are counted. -/
def countLimit : Nat := 1000

/-- The wording of a notice. -/
def Notice.text : Notice → String
  | misuse text => text
  | noExpression => "error: no expression provided\n"
  | noAnchor => "error: --rule requires --anchor\n"
  | badDateTime setting reason =>
    "error: invalid " ++ setting.name ++ " datetime: " ++ reason ++ "\n"
  | rejected diagnostic => diagnostic.illustrate?.getD diagnostic.headline ++ "\n"
  | nothingInRange => "no occurrences in range\n"
  | nothingUpcoming => "no upcoming occurrences\n"
  | capped => "warning: capped at " ++ Nat.repr countLimit ++ " occurrences\n"

/-- The answer to one run. -/
structure Report where
  status : Status
  output : String
  notices : List Notice
deriving DecidableEq

namespace Report

/-- A run that ends with an output. -/
def success (output : String) : Report :=
  ⟨.success, output, []⟩

/-- A run that ends with a notice in place of an output. -/
def refusal (status : Status) (notice : Notice) : Report :=
  ⟨status, "", [notice]⟩

/-- The text on standard error. -/
def errorText (report : Report) : String :=
  String.join (report.notices.map Notice.text)

end Report

/-! ### Listings -/

/-- A listing of occurrences: one a line, or all in a JSON array on one line. -/
def listing (json : Bool) (moments : List CalendarMinute) : String :=
  if json then
    (Document.array (moments.map fun moment ↦ .text moment.text)).render .compact ++ "\n"
  else
    String.join (moments.map fun moment ↦ moment.text ++ "\n")

/-- The report of a listing, which is replaced by a notice if it is empty. -/
def reportListing (json : Bool) (empty : Notice) (moments : List CalendarMinute) : Report :=
  match moments with
  | [] => ⟨.success, "", [empty]⟩
  | moments => .success (listing json moments)

/-! ### Reports on options -/

/-- The date-time in a text, or the reason why there is none. -/
abbrev DateTimeReader : Type :=
  String → Except String DateTime

/-- The date-time in the value of a setting, or the report about it. -/
def DateTimeReader.readSetting (reader : DateTimeReader) (setting : Setting) (text : String) :
    Except Report DateTime :=
  (reader text).mapError fun reason ↦ .refusal .failure (.badDateTime setting reason)

namespace Options

/-- The expression that the options ask about: the one of the rule, else the one that is
written out. -/
def chosen (options : Options) (reader : DateTimeReader) : Except Report Expression :=
  match options.rule with
  | some cadence =>
    match options.anchor with
    | some anchor => do
      let anchor ← reader.readSetting .anchor anchor
      return .ofCadence cadence anchor
    | none => .error (.refusal .misuse .noAnchor)
  | none =>
    match options.expression with
    | some text =>
      match Expression.parse text with
      | .ok expression => .ok expression
      | .error diagnostic => .error (.refusal .failure (.rejected diagnostic))
    | none => .error (.refusal .misuse .noExpression)

/-- The occurrences from a start on: up to an end if there is one, else the first so
many. -/
def range (options : Options) (reader : DateTimeReader) (expression : Expression)
    (start : String) : Except Report (List CalendarMinute) := do
  let start ← reader.readSetting .start start
  match options.stop with
  | some stop =>
    let stop ← reader.readSetting .stop stop
    return (expression.between start stop).result
  | none => return ((expression.occurrences start none).take listingLimit).result.items

/-- The report on the occurrences after the present minute. -/
def upcoming (options : Options) (expression : Expression) (present : DateTime) : Report :=
  let count := options.count.getD 1
  let moments := (expression.nextAfterList present (min count countLimit)).result
  let report := reportListing options.json .nothingUpcoming moments
  if countLimit < count then { report with notices := .capped :: report.notices } else report

/-- The report on an expression: the first of the switches for checking, showing and
normalising decides, else the listing that is asked for. -/
def reportOn (options : Options) (reader : DateTimeReader) (present : DateTime)
    (expression : Expression) : Report :=
  if options.check then
    .success "✓ valid\n"
  else if options.parse then
    .success (expression.document.render .indented ++ "\n")
  else if options.encode then
    .success (expression.text ++ "\n")
  else
    match options.start with
    | some start =>
      match options.range reader expression start with
      | .ok moments => reportListing options.json .nothingInRange moments
      | .error report => report
    | none => options.upcoming expression present

/-- The report on options, at a present time. -/
def run (options : Options) (reader : DateTimeReader) (present : DateTime) : Report :=
  match options.chosen reader with
  | .ok expression => options.reportOn reader present expression
  | .error report => report

end Options

/-! ### Runs -/

/-- What a run takes from outside. -/
structure Surroundings where
  /-- The options that arguments stand for, or the text that is printed in their place. -/
  readArguments : List String → Except Interruption Options
  readDateTime : DateTimeReader
  present : DateTime

namespace Surroundings

/-- The answer to arguments. -/
def run (surroundings : Surroundings) (arguments : List String) : Report :=
  match surroundings.readArguments arguments with
  | .ok options => options.run surroundings.readDateTime surroundings.present
  | .error (.shown text) => .success text
  | .error (.rejected text) => .refusal .misuse (.misuse text)

/-- A date, alone or with a time of day. -/
def standardReader : DateTimeReader := fun text ↦
  match DateTime.read? text.toList with
  | some moment => .ok moment
  | none => .error ("'" ++ text ++ "' is not a date, alone or with a time")

/-- The readers of this library, at a present time. -/
def standard (present : DateTime) : Surroundings where
  readArguments := Options.ofArguments
  readDateTime := standardReader
  present := present

end Surroundings

/-- The answer to arguments at a present time. -/
def run (present : DateTime) (arguments : List String) : Report :=
  (Surroundings.standard present).run arguments

end Recurrence.Command
