import Recurrence.Cadence
import Recurrence.Text.Decimal

/-!
What the command can be asked, whatever the arguments look like that ask it: options that stand
alone, settings that take a value, and one expression. Nothing is given twice, and a value that
is not a text is read when it is given; dates and times are not judged here.
-/

set_option autoImplicit false
set_option relaxedAutoImplicit false

namespace Recurrence.Command

open Recurrence.Text

/-- The options that stand alone. -/
inductive Switch
  | json
  | check
  | parse
  | encode
deriving DecidableEq

/-- The options that take a value. -/
inductive Setting
  | count
  | start
  | stop
  | rule
  | anchor
deriving DecidableEq

/-- The name of an option on the command line. -/
def Switch.name : Switch → String
  | json => "--json"
  | check => "--check"
  | parse => "--parse"
  | encode => "--encode"

/-- The name of an option on the command line. -/
def Setting.name : Setting → String
  | count => "--n"
  | start => "--from"
  | stop => "--to"
  | rule => "--rule"
  | anchor => "--anchor"

/-- All options that stand alone. -/
def Switch.all : List Switch :=
  [json, check, parse, encode]

/-- All options that take a value. -/
def Setting.all : List Setting :=
  [rule, anchor, start, stop, count]

/-- What the arguments ask for. -/
structure Options where
  expression : Option String := none
  count : Option Nat := none
  start : Option String := none
  stop : Option String := none
  rule : Option Cadence := none
  anchor : Option String := none
  json : Bool := false
  check : Bool := false
  parse : Bool := false
  encode : Bool := false
deriving DecidableEq

/-- Why something cannot be given on top of what is given already. -/
inductive Clash
  /-- An expression is given already. -/
  | surplus (text : String)
  /-- The option is given already. -/
  | repeated (option : String)
  /-- The option does not take this value. -/
  | badValue (option value : String)
deriving DecidableEq

/-- The greatest number of occurrences that can be asked for. -/
def greatestCount : Nat := 4294967295

/-- A number of occurrences: digits, after a plus sign or without. -/
def readCount? (text : String) : Option Nat :=
  let digits := match text.toList with
    | '+' :: rest => rest
    | rest => rest
  Decimal.readUpTo? greatestCount digits

namespace Options

/-- Takes the one expression. -/
def setExpression (options : Options) (text : String) : Except Clash Options :=
  match options.expression with
  | none => .ok { options with expression := some text }
  | some _ => .error (.surplus text)

/-- A switch has been given. -/
def isOn (options : Options) : Switch → Bool
  | .json => options.json
  | .check => options.check
  | .parse => options.parse
  | .encode => options.encode

/-- Turns a switch on, once. -/
def turnOn (options : Options) (switch : Switch) : Except Clash Options :=
  if options.isOn switch then
    .error (.repeated switch.name)
  else
    match switch with
    | .json => .ok { options with json := true }
    | .check => .ok { options with check := true }
    | .parse => .ok { options with parse := true }
    | .encode => .ok { options with encode := true }

/-- A setting has been given. -/
def isSet (options : Options) : Setting → Bool
  | .count => options.count.isSome
  | .start => options.start.isSome
  | .stop => options.stop.isSome
  | .rule => options.rule.isSome
  | .anchor => options.anchor.isSome

/-- Gives a setting its value, once. -/
def assign (options : Options) (setting : Setting) (text : String) : Except Clash Options :=
  if options.isSet setting then
    .error (.repeated setting.name)
  else
    match setting with
    | .count =>
      match readCount? text with
      | some count => .ok { options with count := some count }
      | none => .error (.badValue setting.name text)
    | .rule =>
      match Cadence.parse text with
      | .ok cadence => .ok { options with rule := some cadence }
      | .error _ => .error (.badValue setting.name text)
    | .start => .ok { options with start := some text }
    | .stop => .ok { options with stop := some text }
    | .anchor => .ok { options with anchor := some text }

end Options

end Recurrence.Command
