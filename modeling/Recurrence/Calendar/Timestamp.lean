import Recurrence.Calendar.DateTime
import Recurrence.Text.Decimal

/-!
The text of a date-time: `YYYY-MM-DDTHH:MM:SS`, with a sign and six digits for a year
before year 0 and with a fraction only where there are nanoseconds.

There are many ways to write a date-time, and what is said about runs holds for every
reader. The one here takes the written form and shorter ones: the time may be missing or
end after the hour, the minute or the second.
-/

set_option autoImplicit false
set_option relaxedAutoImplicit false

namespace Recurrence.Calendar

open Recurrence.Text

/-! ### Writing -/

/-- A year before year 0 has a minus sign and six digits, any other year four digits. -/
def writeYear (year : Int) : List Char :=
  if year < 0 then
    '-' :: Decimal.writePadded 6 year.natAbs
  else
    Decimal.writePadded 4 year.natAbs

/-- Year, month and day between hyphens. -/
def Date.write (date : Date) : List Char :=
  writeYear date.year ++ '-' :: Decimal.writePadded 2 date.month ++
    '-' :: Decimal.writePadded 2 date.day

/-- Nanoseconds as a decimal fraction: nothing for none, else a point and nine digits
without the zeros at their end. -/
def writeFraction (nanosecond : Nat) : List Char :=
  if nanosecond = 0 then
    []
  else
    '.' :: ((Decimal.writePadded 9 nanosecond).reverse.dropWhile (· = '0')).reverse

/-- The text of a date-time. -/
def DateTime.write (moment : DateTime) : List Char :=
  moment.date.write ++ 'T' :: Decimal.writePadded 2 moment.hour ++
    ':' :: Decimal.writePadded 2 moment.minute ++
    ':' :: Decimal.writePadded 2 moment.second ++ writeFraction moment.nanosecond

/-- The text of a date-time as a string. -/
def DateTime.text (moment : DateTime) : String :=
  String.ofList moment.write

/-- A minute is written as its start. -/
def CalendarMinute.text (moment : CalendarMinute) : String :=
  moment.start.text

/-! ### Reading -/

/-- A number of exactly so many digits at the start of a text, and what follows it. -/
def takeNumber? (width : Nat) (text : List Char) : Option (Nat × List Char) :=
  (Decimal.readFixed? width (text.take width)).map fun number ↦ (number, text.drop width)

/-- A mark, then a number of two digits, at the start of a text, and what follows. -/
def takePart? (mark : Char) : List Char → Option (Nat × List Char)
  | [] => none
  | character :: rest => if character = mark then takeNumber? 2 rest else none

/-- A year has four digits, or a sign and six; year 0 is not negative. -/
def takeYear? : List Char → Option (Int × List Char)
  | '+' :: rest => (takeNumber? 6 rest).map fun (year, rest) ↦ ((year : Int), rest)
  | '-' :: rest =>
    (takeNumber? 6 rest).bind fun (year, rest) ↦
      if year = 0 then none else some (-(year : Int), rest)
  | text => (takeNumber? 4 text).map fun (year, rest) ↦ ((year : Int), rest)

/-- A fraction of a second in nanoseconds: a point and one to nine digits. -/
def readFraction? : List Char → Option Nat
  | [] => some 0
  | '.' :: digits =>
    if digits.length ≤ 9 then
      (Decimal.read? digits).map (· * Nat.pow 10 (9 - digits.length))
    else
      none
  | _ => none

/-- Hour, minute, second and nanosecond of a time of day; the parts that are missing at
its end are 0, and the leap second 60 counts as 59. -/
def readTime? (text : List Char) : Option (Nat × Nat × Nat × Nat) := do
  let (hour, rest) ← takeNumber? 2 text
  if rest = [] then return (hour, 0, 0, 0)
  let (minute, rest) ← takePart? ':' rest
  if rest = [] then return (hour, minute, 0, 0)
  let (second, rest) ← takePart? ':' rest
  let nanosecond ← readFraction? rest
  return (hour, minute, if second = 60 then 59 else second, nanosecond)

/-- The date-time that a text names: a date, alone for its midnight, or followed by `T`,
`t` or a space and a time of day. -/
def DateTime.read? (text : List Char) : Option DateTime := do
  let (year, rest) ← takeYear? text
  let (month, rest) ← takePart? '-' rest
  let (day, rest) ← takePart? '-' rest
  match rest with
  | [] => ofParts? year month day 0 0 0 0
  | mark :: time =>
    if mark = 'T' ∨ mark = 't' ∨ mark = ' ' then
      let (hour, minute, second, nanosecond) ← readTime? time
      ofParts? year month day hour minute second nanosecond
    else
      none

end Recurrence.Calendar
