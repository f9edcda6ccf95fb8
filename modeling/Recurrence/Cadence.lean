import Recurrence.Diagnostic

/-!
How often a rule repeats, and the names of the four ways.
-/

set_option autoImplicit false
set_option relaxedAutoImplicit false

namespace Recurrence

/-- How often a rule repeats. -/
inductive Cadence
  | daily
  | weekly
  | monthly
  | yearly
deriving DecidableEq

namespace Cadence

/-- The cadences from the shortest to the longest. -/
def all : List Cadence :=
  [daily, weekly, monthly, yearly]

/-- The name of a cadence. -/
def name : Cadence → String
  | daily => "daily"
  | weekly => "weekly"
  | monthly => "monthly"
  | yearly => "yearly"

/-- The cadence with exactly a given name. -/
def ofName? (text : String) : Option Cadence :=
  all.find? fun cadence ↦ cadence.name = text

/-- A name with its ASCII letters in lower case. -/
def lowerCase (text : String) : String :=
  String.ofList (text.toList.map Char.toLower)

/-- The cadence that a name in any ASCII case denotes. -/
def parse (text : String) : Except Diagnostic Cadence :=
  match ofName? (lowerCase text) with
  | some cadence => .ok cadence
  | none =>
    .error (.rule ("unknown cadence '" ++ text ++
      "', expected daily, weekly, monthly or yearly"))

end Cadence

end Recurrence
