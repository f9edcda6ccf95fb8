import Mathlib
import Recurrence.Calendar.Timestamp

/-!
The texts of minutes.

A minute is written with digits and three signs (`Calendar.CalendarMinute.mem_text`), and every
part of it but the sign of a year has a fixed width. So its parts can be read back one after the
other, and reading the text of a minute gives its start
(`Calendar.CalendarMinute.read?_text`): different minutes have different texts
(`Calendar.CalendarMinute.text_injective`).
-/

set_option autoImplicit false
set_option relaxedAutoImplicit false

namespace Recurrence

open Recurrence.Text

/-! ### Numbers with leading zeros -/

namespace Text.Decimal

variable {width number : Nat}

theorem isDigit_of_mem_writePadded {c : Char} (h : c ∈ writePadded width number) :
    c.isDigit = true := by
  rcases List.mem_append.mp h with hzero | hdigit
  · rw [List.eq_of_mem_replicate hzero]
    rfl
  · exact isDigit_of_mem_write hdigit

theorem length_writePadded (hwidth : 0 < width) (h : number < 10 ^ width) :
    (writePadded width number).length = width := by
  have hlength : (write number).length ≤ width :=
    (Nat.length_toDigits_le_iff (by decide) hwidth).mpr h
  rw [writePadded, List.length_append, List.length_replicate, Nat.sub_add_cancel hlength]

/-- Leading zeros do not change a number. -/
theorem ofDigitChars_replicate_append (count : Nat) (digits : List Char) :
    Nat.ofDigitChars 10 (List.replicate count '0' ++ digits) 0 = Nat.ofDigitChars 10 digits 0 := by
  induction count with
  | zero => rfl
  | succ count ih =>
    rw [List.replicate_succ, List.cons_append, Nat.ofDigitChars_cons]
    exact ih

/-- A number is read back from its digits, with leading zeros or without. -/
theorem read?_writePadded (width number : Nat) :
    read? (writePadded width number) = some number := by
  have hne : writePadded width number ≠ [] := by
    simp [writePadded, write_ne_nil]
  have hall : (writePadded width number).all Char.isDigit = true :=
    List.all_eq_true.mpr fun _ h ↦ isDigit_of_mem_writePadded h
  rw [read?, if_pos ⟨hne, hall⟩, writePadded, ofDigitChars_replicate_append]
  simp [write]

end Text.Decimal

/-! ### Parts of a date-time -/

namespace Calendar

variable {width number : Nat} {rest : List Char}

/-- A number of a fixed width is read back from the start of a text. -/
theorem takeNumber?_append (hwidth : 0 < width) (h : number < 10 ^ width) (rest : List Char) :
    takeNumber? width (Decimal.writePadded width number ++ rest) = some (number, rest) := by
  have hlength := Decimal.length_writePadded hwidth h
  rw [takeNumber?, List.take_left' hlength, List.drop_left' hlength, Decimal.readFixed?,
    if_pos hlength, Decimal.read?_writePadded]
  rfl

/-- A number of two digits is read back behind its mark. -/
theorem takePart?_cons (mark : Char) (h : number < 100) (rest : List Char) :
    takePart? mark (mark :: (Decimal.writePadded 2 number ++ rest)) = some (number, rest) := by
  rw [takePart?, if_pos rfl, takeNumber?_append (by decide) h]

/-- Without a sign a year has four digits. -/
theorem takeYear?_of_isDigit {first : Char} (h : first.isDigit = true) (rest : List Char) :
    takeYear? (first :: rest) =
      (takeNumber? 4 (first :: rest)).map fun (year, rest) ↦ ((year : Int), rest) := by
  have hplus : first ≠ '+' := by
    rintro rfl
    cases h
  have hminus : first ≠ '-' := by
    rintro rfl
    cases h
  simp [takeYear?, hplus, hminus]

/-- A year is read back from the start of a text. -/
theorem takeYear?_append {year : Int} (h : -9999 ≤ year ∧ year ≤ 9999) (rest : List Char) :
    takeYear? (writeYear year ++ rest) = some (year, rest) := by
  unfold writeYear
  split_ifs with hnegative
  · have hsmall : year.natAbs < 10 ^ 6 := by omega
    have hnonzero : year.natAbs ≠ 0 := by omega
    rw [List.cons_append, takeYear?, takeNumber?_append (by decide) hsmall, Option.bind_some]
    simp only [hnonzero, ↓reduceIte, Option.some.injEq, Prod.mk.injEq, and_true]
    omega
  · have hsmall : year.natAbs < 10 ^ 4 := by omega
    have hnatAbs : (year.natAbs : Int) = year := by omega
    obtain ⟨first, digits, hdigits⟩ :=
      List.exists_cons_of_length_pos (Nat.lt_of_lt_of_eq (Nat.succ_pos 3)
        (Decimal.length_writePadded (by decide) hsmall).symm)
    have hfirst : first.isDigit = true :=
      Decimal.isDigit_of_mem_writePadded (hdigits ▸ List.mem_cons_self)
    have htake := takeNumber?_append (by decide) hsmall rest
    rw [hdigits, List.cons_append] at htake ⊢
    rw [takeYear?_of_isDigit hfirst, htake, Option.map_some]
    dsimp only
    rw [hnatAbs]

theorem DateTime.ofParts?_start (moment : CalendarMinute) :
    DateTime.ofParts? moment.date.year moment.date.month moment.date.day moment.hour
      moment.minute 0 0 = some moment.start := by
  have hminute : CalendarMinute.ofParts? moment.date.year moment.date.month moment.date.day
      moment.hour moment.minute = some moment := by
    rw [CalendarMinute.ofParts?, Date.ofParts?_self, Option.bind_some,
      dif_pos ⟨moment.hour_lt, moment.minute_lt⟩]
  rw [DateTime.ofParts?, hminute]
  rfl

/-! ### Minutes -/

namespace CalendarMinute

theorem toList_text (moment : CalendarMinute) :
    moment.text.toList = moment.date.write ++ 'T' :: Decimal.writePadded 2 moment.hour ++
      ':' :: Decimal.writePadded 2 moment.minute ++ ':' :: Decimal.writePadded 2 0 := by
  rw [text, DateTime.text, String.toList_ofList]
  exact List.append_nil _

/-- The text of a minute consists of digits and of three signs. -/
theorem mem_text {moment : CalendarMinute} {c : Char} (h : c ∈ moment.text.toList) :
    c.isDigit = true ∨ c ∈ ['-', 'T', ':'] := by
  have hdigits {width number : Nat} (hc : c ∈ Decimal.writePadded width number) :
      c.isDigit = true ∨ c ∈ ['-', 'T', ':'] :=
    Or.inl (Decimal.isDigit_of_mem_writePadded hc)
  have hyear (hc : c ∈ writeYear moment.date.year) : c.isDigit = true ∨ c ∈ ['-', 'T', ':'] := by
    unfold writeYear at hc
    split at hc
    · rcases List.mem_cons.mp hc with rfl | hc
      · exact Or.inr (by decide)
      · exact hdigits hc
    · exact hdigits hc
  rw [toList_text, Date.write] at h
  simp only [List.mem_append, List.mem_cons] at h
  rcases h with ((((hc | rfl | hc) | rfl | hc) | rfl | hc) | rfl | hc) | rfl | hc
  · exact hyear hc
  · exact Or.inr (by decide)
  · exact hdigits hc
  · exact Or.inr (by decide)
  · exact hdigits hc
  · exact Or.inr (by decide)
  · exact hdigits hc
  · exact Or.inr (by decide)
  · exact hdigits hc
  · exact Or.inr (by decide)
  · exact hdigits hc

/-- The time of day of a minute is read back. -/
theorem readTime?_write (moment : CalendarMinute) :
    readTime? (Decimal.writePadded 2 moment.hour ++ ':' :: (Decimal.writePadded 2 moment.minute ++
      ':' :: Decimal.writePadded 2 0)) = some (moment.hour, moment.minute, 0, 0) := by
  have hhour : moment.hour < 10 ^ 2 := Nat.lt_trans moment.hour_lt (by decide)
  have hminute : moment.minute < 100 := Nat.lt_trans moment.minute_lt (by decide)
  have hsecond := takePart?_cons ':' (show 0 < 100 by decide) []
  rw [List.append_nil] at hsecond
  simp [readTime?, takeNumber?_append (by decide) hhour, takePart?_cons ':' hminute, hsecond,
    readFraction?]

/-- Reading the text of a minute gives its start. -/
theorem read?_text (moment : CalendarMinute) :
    DateTime.read? moment.text.toList = some moment.start := by
  have hmonth : moment.date.month < 100 :=
    Nat.lt_of_le_of_lt moment.date.month_bounds.2 (by decide)
  have hday : moment.date.day < 100 := by
    have hbound := moment.date.day_bounds.2
    have hlength : daysInMonth moment.date.year moment.date.month ≤ 31 := by
      unfold daysInMonth
      split_ifs <;> omega
    omega
  rw [toList_text, Date.write]
  simp only [List.append_assoc, List.cons_append]
  simp [DateTime.read?, takeYear?_append moment.date.year_bounds, takePart?_cons '-' hmonth,
    takePart?_cons '-' hday, readTime?_write, DateTime.ofParts?_start]

/-- Different minutes have different texts. -/
theorem text_injective : Function.Injective CalendarMinute.text := by
  intro first second h
  have hread := first.read?_text
  rw [h, second.read?_text] at hread
  exact (congrArg DateTime.truncate (Option.some.inj hread)).symm

end CalendarMinute

end Calendar

end Recurrence
