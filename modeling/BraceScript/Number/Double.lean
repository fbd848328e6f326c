/-!
# Double-precision numbers

A finite double is `mantissa * 2 ^ exponent` with a sign; every operation is computed exactly and
then rounded to the nearest double, ties to the even mantissa.

* `Double.ofRatio`   the double nearest to a quotient of natural numbers
* `Double.add`, `Double.sub`, `Double.mul`, `Double.div`, `Double.mod`   arithmetic
* `Double.compare?`   the order, undefined when an operand is not a number
* `Double.truncate`   the integer part
-/

namespace BraceScript

/-- a double-precision number -/
inductive Double
  | nan
  | infinity (negative : Bool)
  | finite (negative : Bool) (mantissa : Nat) (exponent : Int)
deriving DecidableEq, Repr

namespace Double

/-- the exponent of the smallest doubles -/
def minExponent : Int := -1074

def signedZero (negative : Bool) : Double := finite negative 0 minExponent

/-- a mantissa of up to 53 bits, or a carry out of it, at an exponent, as a double -/
def assemble (negative : Bool) (mantissa : Nat) (exponent : Int) : Double :=
  let (m, e) := if mantissa = Nat.pow 2 53 then (Nat.pow 2 52, exponent + 1) else (mantissa, exponent)
  if e > 971 then infinity negative else finite negative m e

/-- `num / den` scaled by `2 ^ -e`, as a quotient of natural numbers -/
def scaleDown (num den : Nat) (e : Int) : Nat × Nat :=
  if 0 ≤ e then (num, den * Nat.pow 2 e.toNat) else (num * Nat.pow 2 (-e).toNat, den)

/-- the quotient rounded to the nearest natural number, ties to even -/
def roundQuotient (num den : Nat) : Nat :=
  let q := num / den
  let r := num % den
  if 2 * r < den then q
  else if 2 * r > den then q + 1
  else if q % 2 = 0 then q else q + 1

/-- the double nearest to `num / den`, with the given sign; infinite when too large -/
def ofRatio (negative : Bool) (num den : Nat) : Double :=
  if num = 0 then signedZero negative
  else
    let guess : Int := (Nat.log2 num : Int) - (Nat.log2 den : Int) - 53
    let low := if guess < minExponent then minExponent else guess
    let (n, d) := scaleDown num den low
    let e := if n / d < Nat.pow 2 53 then low else low + 1
    let (n, d) := scaleDown num den e
    assemble negative (roundQuotient n d) e

/-- the double nearest to an integer; infinite when too large -/
def ofInt (n : Int) : Double := ofRatio (n < 0) n.natAbs 1

/-- the double nearest to `m * 2 ^ e` -/
def ofScaled (negative : Bool) (m : Nat) (e : Int) : Double :=
  if 0 ≤ e then ofRatio negative (m * Nat.pow 2 e.toNat) 1 else ofRatio negative m (Nat.pow 2 (-e).toNat)

/-- a signed mantissa moved down to the exponent `low`, which is not above `e` -/
def lowered (negative : Bool) (m : Nat) (e low : Int) : Int :=
  let n : Int := (m * Nat.pow 2 (e - low).toNat : Nat)
  if negative then -n else n

def isNaN : Double → Bool
  | nan => true
  | _ => false

/-- is the number one of the two infinities? -/
def isInfinite : Double → Bool
  | infinity _ => true
  | _ => false

def isNegative : Double → Bool
  | nan => false
  | infinity s => s
  | finite s _ _ => s

def isZero : Double → Bool
  | finite _ 0 _ => true
  | _ => false

def neg : Double → Double
  | nan => nan
  | infinity s => infinity !s
  | finite s m e => finite (!s) m e

/-- the sum, rounded -/
def add : Double → Double → Double
  | nan, _ => nan
  | _, nan => nan
  | infinity s, infinity t => if s = t then infinity s else nan
  | infinity s, finite .. => infinity s
  | finite .., infinity t => infinity t
  | finite s m e, finite t n f =>
    let low := if e ≤ f then e else f
    let sum := lowered s m e low + lowered t n f low
    if sum = 0 then signedZero (s && t) else ofScaled (sum < 0) sum.natAbs low

/-- the difference, rounded -/
def sub (x y : Double) : Double := add x (neg y)

/-- the product, rounded -/
def mul : Double → Double → Double
  | nan, _ => nan
  | _, nan => nan
  | infinity s, infinity t => infinity (s != t)
  | infinity s, finite t n _ => if n = 0 then nan else infinity (s != t)
  | finite s m _, infinity t => if m = 0 then nan else infinity (s != t)
  | finite s m e, finite t n f =>
    if m * n = 0 then signedZero (s != t) else ofScaled (s != t) (m * n) (e + f)

/-- the quotient, rounded; a zero divisor gives an infinity or no number -/
def div : Double → Double → Double
  | nan, _ => nan
  | _, nan => nan
  | infinity _, infinity _ => nan
  | infinity s, finite t _ _ => infinity (s != t)
  | finite s _ _, infinity t => signedZero (s != t)
  | finite s m e, finite t n f =>
    if n = 0 then (if m = 0 then nan else infinity (s != t))
    else
      let (num, den) := scaleDown m n (f - e)
      ofRatio (s != t) num den

/-- the remainder of the division truncated toward zero, with the sign of the dividend -/
def truncMod : Double → Double → Double
  | nan, _ => nan
  | _, nan => nan
  | infinity _, _ => nan
  | x@(finite ..), infinity _ => x
  | finite s m e, finite _ n f =>
    if n = 0 then nan
    else
      let low := if e ≤ f then e else f
      let r := (m * Nat.pow 2 (e - low).toNat) % (n * Nat.pow 2 (f - low).toNat)
      ofScaled s r low

/-- the remainder with the sign of the divisor -/
def mod (x y : Double) : Double :=
  let r := truncMod x y
  if r.isNaN then nan
  else if r.isZero then signedZero y.isNegative
  else if r.isNegative = y.isNegative then r
  else add r y

/-- the order of two finite numbers, zeros of either sign being equal -/
def compareFinite (s : Bool) (m : Nat) (e : Int) (t : Bool) (n : Nat) (f : Int) : Ordering :=
  let low := if e ≤ f then e else f
  compare (lowered s m e low) (lowered t n f low)

/-- the order, undefined when an operand is not a number -/
def compare? : Double → Double → Option Ordering
  | nan, _ => none
  | _, nan => none
  | infinity s, infinity t => some (compare (!s).toNat (!t).toNat)
  | infinity s, finite .. => some (if s then .lt else .gt)
  | finite .., infinity t => some (if t then .gt else .lt)
  | finite s m e, finite t n f => some (compareFinite s m e t n f)

/-- the exact order of an integer and a double -/
def compareInt? (i : Int) : Double → Option Ordering
  | nan => none
  | infinity s => some (if s then .gt else .lt)
  | finite s m e => some (compareFinite (i < 0) i.natAbs 0 s m e)

def truncate : Double → Option Int
  | finite s m e =>
    let n : Int := if 0 ≤ e then (m * Nat.pow 2 e.toNat : Nat) else (m / Nat.pow 2 (-e).toNat : Nat)
    some (if s then -n else n)
  | _ => none

end Double

end BraceScript
