import Recurrence.Text.Decimal

/-!
Three-letter names of weekdays and months, which may stand for their numbers in any
ASCII case. The same number may have two names: both `mon` and `jan` are 1.
-/

set_option autoImplicit false
set_option relaxedAutoImplicit false

namespace Recurrence.Names

open Recurrence.Text

/-- The names and their numbers: weekdays count from Sunday = 0, months from January = 1. -/
def table : List (List Char × Nat) :=
  [(['s', 'u', 'n'], 0), (['m', 'o', 'n'], 1), (['t', 'u', 'e'], 2), (['w', 'e', 'd'], 3),
    (['t', 'h', 'u'], 4), (['f', 'r', 'i'], 5), (['s', 'a', 't'], 6),
    (['j', 'a', 'n'], 1), (['f', 'e', 'b'], 2), (['m', 'a', 'r'], 3), (['a', 'p', 'r'], 4),
    (['m', 'a', 'y'], 5), (['j', 'u', 'n'], 6), (['j', 'u', 'l'], 7), (['a', 'u', 'g'], 8),
    (['s', 'e', 'p'], 9), (['o', 'c', 't'], 10), (['n', 'o', 'v'], 11), (['d', 'e', 'c'], 12)]

/-- The number of a name, in any ASCII case. -/
def number? (token : List Char) : Option Nat :=
  (table.find? fun entry ↦ entry.1 = token.map Char.toLower).map Prod.snd

/-- A name becomes the digits of its number; any other token stays as it is. -/
def resolve (token : List Char) : List Char :=
  match number? token with
  | some number => Decimal.write number
  | none => token

end Recurrence.Names
