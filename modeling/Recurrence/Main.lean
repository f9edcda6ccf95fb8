import Recurrence.Command.Report
import Std.Time.Zoned

/-!
The command line program: it asks the system for its arguments and the local time, and
prints the report.
-/

set_option autoImplicit false
set_option relaxedAutoImplicit false

namespace Recurrence.Command

open Recurrence.Calendar

/-- The local time of the system, or the last minute of the calendar if its year is none of the
calendar. -/
def presentTime : IO DateTime := do
  let now ← Std.Time.PlainDateTime.now
  let moment := DateTime.ofParts? now.date.year.toInt now.date.month.toNat now.date.day.toNat
    now.time.hour.toNat now.time.minute.toNat now.time.second.toNat now.time.nanosecond.toNat
  return moment.getD CalendarMinute.last.start

end Recurrence.Command

/-- Answers the arguments on standard output and standard error. -/
def main (arguments : List String) : IO UInt32 := do
  let report := Recurrence.Command.run (← Recurrence.Command.presentTime) arguments
  IO.print report.output
  IO.eprint report.errorText
  return UInt32.ofNat report.status.code
