import Recurrence.Command.Options
import Recurrence.Text.Split

/-!
A reader of the arguments of the command line. They are read from left to right, and the first
misuse, or the first request for help or for the version, decides; which arguments go together is
judged at the end.
-/

set_option autoImplicit false
set_option relaxedAutoImplicit false

namespace Recurrence.Command

open Recurrence.Text

/-- Why reading the arguments ends without options. -/
inductive Interruption
  /-- A text is shown that was asked for. -/
  | shown (text : String)
  /-- The arguments are rejected with a text. -/
  | rejected (text : String)
deriving DecidableEq

/-! ### Misuse -/

/-- Why arguments cannot be used. -/
inductive Misuse
  | unexpected (argument : String)
  | clash (cause : Clash)
  | noValue (setting : Setting)
  | needlessValue (option : String)
  | together (first second : String)
  | incomplete (given : Options) (missing : Setting)
deriving DecidableEq

/-- A setting with a mark for its value. -/
def Setting.shape : Setting → String
  | count => "--n <N>"
  | start => "--from <FROM>"
  | stop => "--to <TO>"
  | rule => "--rule <RULE>"
  | anchor => "--anchor <ANCHOR>"

/-- What is given, and one setting more, as it stands on the command line. -/
def Options.shapes (options : Options) (missing : Setting) : List String :=
  (Setting.all.filter fun setting ↦ options.isSet setting || setting = missing).map Setting.shape ++
    (Switch.all.filter options.isOn).map Switch.name ++
    options.expression.toList.map fun _ ↦ "<EXPRESSION>"

/-- The wording of a misuse. -/
def Misuse.message : Misuse → String
  | unexpected argument => "unexpected argument '" ++ argument ++ "' found"
  | clash (.surplus argument) => "unexpected argument '" ++ argument ++ "' found"
  | clash (.repeated option) => "the argument '" ++ option ++ "' cannot be used multiple times"
  | clash (.badValue option value) => "invalid value '" ++ value ++ "' for '" ++ option ++ "'"
  | noValue setting => "a value is required for '" ++ setting.shape ++ "' but none was supplied"
  | needlessValue option => "unexpected value for '" ++ option ++ "' found"
  | together first second =>
    "the argument '" ++ first ++ "' cannot be used with '" ++ second ++ "'"
  | incomplete _ missing =>
    "the following required arguments were not provided:\n  " ++ missing.shape

/-- How the command is to be used: with what was given and is missing, if something is missing. -/
def Misuse.usage : Misuse → List String
  | incomplete given missing => given.shapes missing
  | _ => ["[OPTIONS]", "[EXPRESSION]"]

/-- The text on a misuse. -/
def Misuse.text (cause : Misuse) : String :=
  "error: " ++ cause.message ++ "\n\nUsage: " ++
    " ".intercalate ("cronrule" :: cause.usage) ++ "\n\nFor more information, try '--help'.\n"

/-- What was taken, or the end of reading with the text on a clash. -/
def orReject {α : Type} (taken : Except Clash α) : Except Interruption α :=
  taken.mapError fun cause ↦ .rejected (Misuse.clash cause).text

/-! ### Arguments one by one -/

/-- What one argument is by its spelling. -/
inductive Argument
  /-- An expression, or the value of the option before it. -/
  | plain (text : String)
  /-- The mark after which all arguments are expressions. -/
  | terminator
  | help
  | version
  | toggle (switch : Switch)
  /-- An option with the value that stands in the same argument, if one does. -/
  | assignment (setting : Setting) (attached : Option String)
deriving DecidableEq

namespace Argument

/-- An option that is written with two hyphens, without its value. -/
def ofLongName? (name : List Char) : Option Argument :=
  let text := "--" ++ String.ofList name
  if text = "--help" then some .help
  else if text = "--version" then some .version
  else
    (Switch.all.find? (·.name = text)).map .toggle <|>
      (Setting.all.find? (·.name = text)).map (.assignment · none)

/-- An option that is written with two hyphens, with a value after `=` or without. -/
def ofLong (whole : String) (name : List Char) (attached : Option (List Char)) :
    Except Misuse Argument :=
  match ofLongName? name, attached with
  | some (.assignment setting _), value =>
    .ok (.assignment setting (value.map String.ofList))
  | some argument, none => .ok argument
  | some _, some _ => .error (.needlessValue ("--" ++ String.ofList name))
  | none, _ => .error (.unexpected whole)

/-- An option that is written with one hyphen and one letter; the rest is its value. -/
def ofShort (whole : String) (letter : Char) (rest : List Char) : Except Misuse Argument :=
  if letter = 'h' then .ok .help
  else if letter = 'V' then .ok .version
  else if letter = 'n' then
    match rest with
    | [] => .ok (.assignment .count none)
    | '=' :: value => .ok (.assignment .count (some (String.ofList value)))
    | value => .ok (.assignment .count (some (String.ofList value)))
  else .error (.unexpected whole)

/-- What an argument is by its spelling; a hyphen alone is plain. -/
def ofText (whole : String) : Except Misuse Argument :=
  match whole.toList with
  | ['-', '-'] => .ok .terminator
  | '-' :: '-' :: text =>
    match cut? '=' text with
    | some (name, value) => ofLong whole name (some value)
    | none => ofLong whole text none
  | '-' :: letter :: rest => ofShort whole letter rest
  | _ => .ok (.plain whole)

end Argument

/-! ### All arguments -/

/-- What the command is for. -/
def aboutText : String :=
  "Five-field cron expressions and their occurrences\n"

/-- The answer to a request for the version. -/
def versionText : String :=
  "cronrule 0.1.0\n"

/-- Reads arguments on top of the options read so far. -/
def readArguments (options : Options) : List String → Except Interruption Options
  | [] => .ok options
  | text :: rest =>
    match Argument.ofText text with
    | .error cause => .error (.rejected cause.text)
    | .ok (.plain expression) => do
      let options ← orReject (options.setExpression expression)
      readArguments options rest
    | .ok .terminator => orReject (rest.foldlM Options.setExpression options)
    | .ok .help => .error (.shown aboutText)
    | .ok .version => .error (.shown versionText)
    | .ok (.toggle switch) => do
      let options ← orReject (options.turnOn switch)
      readArguments options rest
    | .ok (.assignment setting (some value)) => do
      let options ← orReject (options.assign setting value)
      readArguments options rest
    | .ok (.assignment setting none) =>
      match rest with
      | [] => .error (.rejected (Misuse.noValue setting).text)
      | value :: rest =>
        match Argument.ofText value with
        | .ok (.plain value) => do
          let options ← orReject (options.assign setting value)
          readArguments options rest
        | _ => .error (.rejected (Misuse.noValue setting).text)

namespace Options

/-- Options that exclude each other, and options without what they need. A setting
waives its need if what it needs is excluded by something that is given. -/
def misuse? (options : Options) : Option Misuse :=
  if options.start.isSome && options.count.isSome then
    some (.together Setting.start.shape Setting.count.shape)
  else if options.rule.isSome && options.expression.isSome then
    some (.together Setting.rule.shape "[EXPRESSION]")
  else if options.rule.isSome && options.anchor.isNone then
    some (.incomplete options .anchor)
  else if options.stop.isSome && options.start.isNone && options.count.isNone then
    some (.incomplete options .start)
  else if options.anchor.isSome && options.rule.isNone && options.expression.isNone then
    some (.incomplete options .rule)
  else
    none

/-- The options that arguments stand for. -/
def ofArguments (arguments : List String) : Except Interruption Options := do
  let options ← readArguments {} arguments
  match options.misuse? with
  | some cause => .error (.rejected cause.text)
  | none => return options

end Options

end Recurrence.Command
