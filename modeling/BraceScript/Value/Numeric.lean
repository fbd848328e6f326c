import BraceScript.Value

/-!
# Numbers among the values

Truth values count as the integers zero and one. Integers and doubles are compared exactly.

* `Numeric`            an integer or a double
* `Value.numeric?`     the number that a value is
* `Numeric.compare?`   the order, undefined when an operand is not a number
* `Value.sameKey`      when two values are the same key of a dictionary
-/

namespace BraceScript

inductive Numeric
  | int (n : Int)
  | real (x : Double)
deriving DecidableEq, Repr

def Value.numeric? : Value → Option Numeric
  | .bool b => some (.int (if b then 1 else 0))
  | .int n => some (.int n)
  | .float x => some (.real x)
  | .nan _ => some (.real .nan)
  | _ => none

def Value.int? : Value → Option Int
  | .bool b => some (if b then 1 else 0)
  | .int n => some n
  | _ => none

namespace Numeric

/-- the exact order of two numbers, undefined when one is not a number -/
def compare? : Numeric → Numeric → Option Ordering
  | int a, int b => some (compare a b)
  | int a, real y => Double.compareInt? a y
  | real x, int b => (Double.compareInt? b x).map Ordering.swap
  | real x, real y => Double.compare? x y

def equal (a b : Numeric) : Bool := compare? a b == some .eq

def isTrue : Numeric → Bool
  | int n => n != 0
  | real x => !x.isZero

end Numeric

/-- are two values the same key of a dictionary? Numbers of equal value are, and otherwise only
identical values. -/
def Value.sameKey (a b : Value) : Bool :=
  if a = b then true
  else match a.numeric?, b.numeric? with
    | some x, some y => x.equal y
    | _, _ => false

end BraceScript
