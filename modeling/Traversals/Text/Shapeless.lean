import Traversals.Text.Extending
import Traversals.Text.Unassigned

/-!
# Characters without a shape of their own

Controls, formats, private characters and separators other than the blank
show nothing by themselves, fillers stand for a letter that is missing, marks
extend the character before them, and an unassigned code point is no character
yet. All other characters can be shown as they are. Together the tables hold
every code point that a display may ignore by default.
-/

namespace Traversals.Text

/-- Controls, formats, private characters and every separator but the blank,
as closed ranges in ascending order. -/
def formless : List (Nat × Nat) :=
  [(0x0, 0x1F), (0x7F, 0xA0), (0xAD, 0xAD), (0x600, 0x605), (0x61C, 0x61C), (0x6DD, 0x6DD),
    (0x70F, 0x70F), (0x890, 0x891), (0x8E2, 0x8E2), (0x1680, 0x1680), (0x180E, 0x180E),
    (0x2000, 0x200F), (0x2028, 0x202F), (0x205F, 0x2064), (0x2066, 0x206F), (0x3000, 0x3000),
    (0xD800, 0xF8FF), (0xFEFF, 0xFEFF), (0xFFF9, 0xFFFB), (0x110BD, 0x110BD), (0x110CD, 0x110CD),
    (0x13430, 0x1343F), (0x1BCA0, 0x1BCA3), (0x1D173, 0x1D17A), (0xE0001, 0xE0001),
    (0xE0020, 0xE007F), (0xF0000, 0xFFFFD), (0x100000, 0x10FFFD)]

/-- Letters that hold the place of a missing part of a syllable and show
nothing. They are the only letters that a display may ignore by default. -/
def fillers : List (Nat × Nat) :=
  [(0x115F, 0x1160), (0x3164, 0x3164), (0xFFA0, 0xFFA0)]

def inRanges (ranges : List (Nat × Nat)) (n : Nat) : Bool :=
  ranges.any fun range => range.1 ≤ n && n ≤ range.2

/-- A character that needs a number to be recognised. Between the blank and
the tilde there is none. -/
def isShapeless (c : Char) : Bool :=
  let n := c.toNat
  if 32 ≤ n && n < 127 then false
  else inRanges formless n || inRanges fillers n || inRanges extending n || inRanges unassigned n

end Traversals.Text
