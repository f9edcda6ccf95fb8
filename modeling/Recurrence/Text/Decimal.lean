/-!
Decimal numbers without sign: any run of ASCII digits can be read, leading zeros
included, and writing gives the one form without them. Reading what was written
gives the number back (`read?_write`). Where a number has to fit into a word, it is
built digit by digit and lost as soon as it grows past the greatest one; that agrees
with looking at the whole number afterwards (`readUpTo?_eq_filter`).
-/

set_option autoImplicit false
set_option relaxedAutoImplicit false

namespace Recurrence.Text.Decimal

/-- The digits of a number, most significant first, without leading zeros. -/
def write (number : Nat) : List Char :=
  Nat.toDigits 10 number

/-- The digits of a number, with leading zeros up to a width. -/
def writePadded (width number : Nat) : List Char :=
  List.replicate (width - (write number).length) '0' ++ write number

/-- The number that a non-empty run of ASCII digits denotes, of any length. -/
def read? (text : List Char) : Option Nat :=
  if text ≠ [] ∧ text.all Char.isDigit then some (Nat.ofDigitChars 10 text 0) else none

/-- A number with one more digit behind it, if it stays within a greatest one. -/
def extend? (greatest number : Nat) (digit : Char) : Option Nat :=
  let extended := 10 * number + (digit.toNat - '0'.toNat)
  if extended ≤ greatest then some extended else none

/-- The number that a non-empty run of ASCII digits denotes, read digit by digit, as
long as it stays within a greatest one. -/
def readUpTo? (greatest : Nat) (text : List Char) : Option Nat :=
  if text ≠ [] ∧ text.all Char.isDigit then text.foldlM (extend? greatest) 0 else none

/-- The number that exactly so many digits denote. -/
def readFixed? (width : Nat) (text : List Char) : Option Nat :=
  if text.length = width then read? text else none

theorem write_ne_nil (number : Nat) : write number ≠ [] :=
  Nat.toDigits_ne_nil

theorem isDigit_of_mem_write {number : Nat} {character : Char} (h : character ∈ write number) :
    character.isDigit = true :=
  Nat.isDigit_of_mem_toDigits (by decide) (by decide) h

/-- Reading gives back the number that was written. -/
theorem read?_write (number : Nat) : read? (write number) = some number := by
  have hall : (write number).all Char.isDigit = true :=
    List.all_eq_true.mpr fun _ h ↦ isDigit_of_mem_write h
  simp [read?, write_ne_nil, hall]
  simp [write]

/-! ### Numbers up to a greatest one -/

/-- More digits do not make a number smaller. -/
theorem le_ofDigitChars (digits : List Char) (number : Nat) :
    number ≤ Nat.ofDigitChars 10 digits number := by
  induction digits generalizing number with
  | nil => simp
  | cons digit rest ih =>
    rw [Nat.ofDigitChars_cons]
    exact Nat.le_trans (by omega) (ih _)

/-- What is built digit by digit is the whole number, unless that is past the greatest. -/
theorem foldlM_extend? {greatest number : Nat} (digits : List Char) (h : number ≤ greatest) :
    digits.foldlM (extend? greatest) number =
      if Nat.ofDigitChars 10 digits number ≤ greatest then
        some (Nat.ofDigitChars 10 digits number)
      else
        none := by
  induction digits generalizing number with
  | nil => simp [h]
  | cons digit rest ih =>
    rw [List.foldlM_cons, Nat.ofDigitChars_cons, extend?]
    by_cases hle : 10 * number + (digit.toNat - '0'.toNat) ≤ greatest
    · simp only [hle, ↓reduceIte]
      exact ih hle
    · have hgrows := le_ofDigitChars rest (10 * number + (digit.toNat - '0'.toNat))
      have hpast : ¬ Nat.ofDigitChars 10 rest (10 * number + (digit.toNat - '0'.toNat)) ≤
          greatest := by omega
      simp only [hle, hpast, ↓reduceIte]
      rfl

/-- Digit by digit, exactly the numbers up to the greatest one are read. -/
theorem readUpTo?_eq_filter (greatest : Nat) (text : List Char) :
    readUpTo? greatest text = (read? text).filter (· ≤ greatest) := by
  unfold readUpTo? read?
  split
  · rw [foldlM_extend? text (Nat.zero_le greatest)]
    simp [Option.filter]
  · rfl

end Recurrence.Text.Decimal
