import BraceScript.Number.Double

/-!
# Decimal text of doubles

* `Double.shortest`   the fewest decimal digits that read back as the same double
* `Double.text`       the usual text: shortest digits, positional between 1e-4 and 1e16
* `Double.fixed`, `Double.scientific`   a given number of digits, ties to even
-/

namespace BraceScript

namespace Double

/-- is `10 ^ j` at most `num / den`? -/
def powerBelow (num den : Nat) (j : Int) : Bool :=
  if 0 ≤ j then Nat.pow 10 j.toNat * den ≤ num else den ≤ num * Nat.pow 10 (-j).toNat

/-- the decimal exponent of the leading digit of `num / den`, which is positive -/
def leadingPower (num den : Nat) : Int :=
  let guess := (((Nat.log2 num : Int) - (Nat.log2 den : Int)) * 30103) / 100000
  if powerBelow num den (guess + 1) then guess + 1
  else if powerBelow num den guess then guess
  else guess - 1

/-- `m * 2 ^ e` as a quotient of natural numbers -/
def ratio (m : Nat) (e : Int) : Nat × Nat :=
  if 0 ≤ e then (m * Nat.pow 2 e.toNat, 1) else (m, Nat.pow 2 (-e).toNat)

/-- the first grid of `n` significant digits, `n` counting up from the given one, on which a
neighbour of the value lies in the interval of numbers that round to it -/
def searchGrid (value lo hi : Nat) (closed : Bool) (un ud : Nat) (top : Int) :
    Nat → Nat → Nat × Int
  | 0, n => (value * un / ud, top - n + 1)
  | fuel + 1, n =>
    let k := top - n + 1
    let a := if 0 ≤ k then ud * Nat.pow 10 k.toNat else ud
    let b := if 0 ≤ k then un else un * Nat.pow 10 (-k).toNat
    let d := value * b / a
    let below := if closed then lo * b ≤ d * a else lo * b < d * a
    let above := if closed then (d + 1) * a ≤ hi * b else (d + 1) * a < hi * b
    if below && above then
      let twice := 2 * (value * b)
      let middle := (2 * d + 1) * a
      if twice < middle then (d, k)
      else if middle < twice then (d + 1, k)
      else if d % 2 = 0 then (d, k) else (d + 1, k)
    else if below then (d, k)
    else if above then (d + 1, k)
    else searchGrid value lo hi closed un ud top fuel (n + 1)

/-- the fewest decimal digits that read back as `m * 2 ^ e`, and their exponent -/
def shortest (m : Nat) (e : Int) : Nat × Int :=
  let (un, ud) := ratio 1 (e - 2)
  let lo := if m = Nat.pow 2 52 && e > minExponent then 4 * m - 1 else 4 * m - 2
  let (num, den) := ratio m e
  searchGrid (4 * m) lo (4 * m + 2) (m % 2 = 0) un ud (leadingPower num den) 20 1

/-- drop trailing zeros of a digit string, counting them into the exponent -/
def trimZeros : Nat → Nat → Int → Nat × Int
  | 0, d, k => (d, k)
  | fuel + 1, d, k => if d ≠ 0 && d % 10 = 0 then trimZeros fuel (d / 10) (k + 1) else (d, k)

def digitChars (n : Nat) : List Char := Nat.toDigits 10 n

/-- an exponent with its sign and at least two digits -/
def exponentText (e : Int) : String :=
  let ds := digitChars e.natAbs
  let ds := if ds.length < 2 then '0' :: ds else ds
  String.ofList ((if e < 0 then '-' else '+') :: ds)

/-- digits with the point after the first `point` of them; `.0` when nothing follows it -/
def positional (ds : List Char) (point : Int) : String :=
  if point ≤ 0 then
    "0." ++ String.ofList (List.replicate (-point).toNat '0' ++ ds)
  else if point.toNat < ds.length then
    String.ofList (ds.take point.toNat) ++ "." ++ String.ofList (ds.drop point.toNat)
  else
    String.ofList (ds ++ List.replicate (point.toNat - ds.length) '0') ++ ".0"

/-- one digit, a point and the other digits if there are any, and an exponent -/
def exponential (ds : List Char) (exponent : Int) : String :=
  let head := String.ofList (ds.take 1)
  let tail := ds.drop 1
  let frac := if tail.isEmpty then "" else "." ++ String.ofList tail
  head ++ frac ++ "e" ++ exponentText exponent

/-- the text of a double: the shortest digits that read back, positional when the leading digit
stands between the fourth place after the point and the sixteenth before it -/
def text : Double → String
  | nan => "nan"
  | infinity s => if s then "-inf" else "inf"
  | finite s m e =>
    let sign := if s then "-" else ""
    if m = 0 then sign ++ "0.0"
    else
      let (d, k) := shortest m e
      let (d, k) := trimZeros 20 d k
      let ds := digitChars d
      let point := k + ds.length
      sign ++ (if -4 < point && point ≤ 16 then positional ds point
        else exponential ds (point - 1))

/-- the nearest natural number to `m * 2 ^ e * 10 ^ places`, ties to even -/
def roundAt (m : Nat) (e : Int) (places : Int) : Nat :=
  let (num, den) := ratio m e
  if 0 ≤ places then roundQuotient (num * Nat.pow 10 places.toNat) den
  else roundQuotient num (den * Nat.pow 10 (-places).toNat)

/-- a digit string padded with leading zeros to a length -/
def padZeros (width : Nat) (ds : List Char) : List Char :=
  List.replicate (width - ds.length) '0' ++ ds

/-- the magnitude with exactly `places` digits after the point -/
def fixed (m : Nat) (e : Int) (places : Nat) : String :=
  let ds := padZeros (places + 1) (digitChars (roundAt m e places))
  let whole := ds.take (ds.length - places)
  let frac := ds.drop (ds.length - places)
  String.ofList whole ++ (if places = 0 then "" else "." ++ String.ofList frac)

/-- `count` significant digits of a magnitude and the exponent of the first of them -/
def significant (m : Nat) (e : Int) (count : Nat) : List Char × Int :=
  if m = 0 then (List.replicate count '0', 0)
  else
    let (num, den) := ratio m e
    let top := leadingPower num den
    let d := roundAt m e (count - 1 - top)
    if d = Nat.pow 10 count then (digitChars (d / 10), top + 1) else (digitChars d, top)

/-- the magnitude as one digit, `places` more after the point, and an exponent -/
def scientific (m : Nat) (e : Int) (places : Nat) : String :=
  let (ds, top) := significant m e (places + 1)
  exponential ds top

end Double

end BraceScript
