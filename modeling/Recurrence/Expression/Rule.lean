import Recurrence.Cadence
import Recurrence.Calendar.DateTime
import Recurrence.Expression.Basic

/-!
Rules that repeat at a cadence from an anchor on. A rule fixes the time of day and as
much of the date as its cadence repeats; a month or a year without the anchor's day is
skipped.
-/

set_option autoImplicit false
set_option relaxedAutoImplicit false

namespace Recurrence.Expression

open Recurrence.Calendar

/-- The pattern of a number that stands for a part of a date or a time. -/
def fixed (part : Nat) : Pattern :=
  .number (UInt8.ofNat part)

/-- The expression that repeats at a cadence, at the anchor's time of day. -/
def ofCadence (cadence : Cadence) (anchor : DateTime) : Expression :=
  let atTime := { always with minute := fixed anchor.minute, hour := fixed anchor.hour }
  match cadence with
  | .daily => atTime
  | .weekly => { atTime with dayOfWeek := fixed anchor.date.weekday }
  | .monthly => { atTime with dayOfMonth := fixed anchor.date.day }
  | .yearly =>
    { atTime with dayOfMonth := fixed anchor.date.day, month := fixed anchor.date.month }

end Recurrence.Expression
