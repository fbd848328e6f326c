/-!
# Decimal digits and blanks

Every script with decimal digits has them as ten consecutive code points, zero first.

* `digitValue?`   the value of a decimal digit of any script
* `isDigit`       is the character a decimal digit?
* `isBlank`       is the character white space?
-/

namespace BraceScript.Text

/-- the code points of the zeros above the ASCII range -/
def zeros : List Nat := [
  1632, 1776, 1984, 2406, 2534, 2662, 2790, 2918, 3046, 3174, 3302,
  3430, 3558, 3664, 3792, 3872, 4160, 4240, 6112, 6160, 6470, 6608, 6784,
  6800, 6992, 7088, 7232, 7248, 42528, 43216, 43264, 43472, 43504, 43600, 44016,
  65296, 66720, 68912, 69734, 69872, 69942, 70096, 70384, 70736, 70864, 71248, 71360,
  71472, 71904, 72016, 72784, 73040, 73120, 92768, 92864, 93008, 120782, 120792, 120802,
  120812, 120822, 123200, 123632, 125264, 130032
]

/-- the value of a decimal digit, in whatever script it is written -/
def digitValue? (c : Char) : Option Nat :=
  if c.toNat < 128 then
    if c.isDigit then some (c.toNat - 48) else none
  else
    (zeros.find? fun z => z ≤ c.toNat && c.toNat < z + 10).map (c.toNat - ·)

/-- is the character a decimal digit of some script? -/
def isDigit (c : Char) : Bool := (digitValue? c).isSome

def isBlank (c : Char) : Bool :=
  let n := c.toNat
  (9 ≤ n && n ≤ 13) || (28 ≤ n && n ≤ 32) || n == 133 || n == 160 || n == 5760 ||
    (8192 ≤ n && n ≤ 8202) || n == 8232 || n == 8233 || n == 8239 || n == 8287 || n == 12288

end BraceScript.Text
