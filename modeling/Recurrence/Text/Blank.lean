/-!
The characters that separate fields: those with the Unicode property White_Space.
-/

set_option autoImplicit false
set_option relaxedAutoImplicit false

namespace Recurrence.Text

/-- The ranges of code points with the property White_Space, ascending. -/
def blankRanges : List (Nat × Nat) :=
  [(0x09, 0x0D), (0x20, 0x20), (0x85, 0x85), (0xA0, 0xA0), (0x1680, 0x1680), (0x2000, 0x200A),
    (0x2028, 0x2029), (0x202F, 0x202F), (0x205F, 0x205F), (0x3000, 0x3000)]

/-- White space of the whole of Unicode. -/
def isBlank (character : Char) : Bool :=
  blankRanges.any fun range ↦ range.1 ≤ character.toNat && character.toNat ≤ range.2

end Recurrence.Text
