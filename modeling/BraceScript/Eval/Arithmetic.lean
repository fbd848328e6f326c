import BraceScript.Eval.Template

/-!
# Arithmetic operators

Numbers are added, subtracted, multiplied and divided; texts, lists and tuples are joined and
repeated; a text with `%` is a template for the value on the right.

* `Numeric.add`, ...   the operators on numbers
* `Exec.arith`         the operators on values
* `Exec.power`         powers
-/

namespace BraceScript

namespace Numeric

/-- a number as a double; an integer may be too large -/
def toDouble : Numeric → Except Fault Double
  | int n =>
    let x := Double.ofInt n
    if x.isInfinite then .error .intTooLarge else .ok x
  | real x => .ok x

def onDoubles (f : Double → Double → Except Fault Double) (a b : Numeric) :
    Except Fault Numeric := do
  let x ← a.toDouble
  let y ← b.toDouble
  return real (← f x y)

def add : Numeric → Numeric → Except Fault Numeric
  | int a, int b => .ok (int (a + b))
  | a, b => onDoubles (fun x y => .ok (x.add y)) a b

def sub : Numeric → Numeric → Except Fault Numeric
  | int a, int b => .ok (int (a - b))
  | a, b => onDoubles (fun x y => .ok (x.sub y)) a b

def mul : Numeric → Numeric → Except Fault Numeric
  | int a, int b => .ok (int (a * b))
  | a, b => onDoubles (fun x y => .ok (x.mul y)) a b

/-- the quotient of two integers, rounded to a double -/
def divInt (a b : Int) : Except Fault Numeric :=
  if b = 0 then .error .divisionByZero
  else
    let x := Double.ofRatio ((a < 0) != (b < 0)) a.natAbs b.natAbs
    if x.isInfinite then .error .divisionOverflow else .ok (real x)

def div : Numeric → Numeric → Except Fault Numeric
  | int a, int b => divInt a b
  | a, b =>
    onDoubles (fun x y => if y.isZero then .error .realDivisionByZero else .ok (x.div y)) a b

/-- the remainder, with the sign of the divisor -/
def mod : Numeric → Numeric → Except Fault Numeric
  | int a, int b => if b = 0 then .error .moduloByZero else .ok (int (Int.fmod a b))
  | a, b =>
    onDoubles (fun x y => if y.isZero then .error .realModuloByZero else .ok (x.mod y)) a b

def arith : ArithOp → Numeric → Numeric → Except Fault Numeric
  | .add => add
  | .sub => sub
  | .mul => mul
  | .div => div
  | .mod => mod

end Numeric

namespace Double

def toFloat : Double → Float
  | nan => Float.ofBits 0x7ff8000000000000
  | infinity s => Float.ofBits (if s then 0xfff0000000000000 else 0x7ff0000000000000)
  | finite s m e =>
    let sign : Nat := if s then Nat.pow 2 63 else 0
    let bits := if m < Nat.pow 2 52 then m else (e + 1075).toNat * Nat.pow 2 52 + (m - Nat.pow 2 52)
    Float.ofBits (UInt64.ofNat (sign + bits))

def ofFloat (x : Float) : Double :=
  let bits : Nat := x.toBits.toNat
  let s := Nat.pow 2 63 ≤ bits
  let field : Nat := bits / Nat.pow 2 52 % Nat.pow 2 11
  let frac : Nat := bits % Nat.pow 2 52
  if field = 2047 then (if frac = 0 then infinity s else nan)
  else if field = 0 then finite s frac minExponent
  else finite s (frac + Nat.pow 2 52) ((field : Int) - 1075)

def isInteger : Double → Bool
  | finite _ m e => 0 ≤ e || m % Nat.pow 2 (-e).toNat = 0
  | _ => false

def power (x y : Double) : Except Fault Double :=
  if x.isZero && y.isNegative && !y.isZero && !y.isInfinite then .error .zeroToNegativePower
  else
    let r := ofFloat (x.toFloat ^ y.toFloat)
    match x, y with
    | finite s _ _, finite .. =>
      if s && !x.isZero && !y.isInteger then .error .complexResult
      else if r.isInfinite then .error .rangeOverflow else .ok r
    | _, _ => .ok r

end Double

namespace Numeric

/-- a power: exact for an integer to a natural number, else by doubles -/
def power (a b : Numeric) : Except Fault Numeric :=
  match a, b with
  | int x, int y =>
    if 0 ≤ y then .ok (int (Int.pow x y.toNat)) else onDoubles Double.power a b
  | _, _ => onDoubles Double.power a b

end Numeric

namespace Exec

def ofNumeric : Numeric → Exec Value
  | .int n => pure (.int n)
  | .real x => newDouble x

def maxSize : Nat := Nat.pow 2 63 - 1

/-- how often a sequence of a size is repeated -/
def repeatCount (size : Nat) (n : Int) : Exec Nat :=
  if n.natAbs > maxSize then fail .sizeOverflow
  else if Nat.pow 2 40 < size * n.toNat then fail .outOfMemory
  else pure n.toNat

def repeatItems {α : Type} (items : List α) (n : Nat) : List α :=
  if items.isEmpty then [] else (List.replicate n items).flatten

/-- a sequence repeated; `none` when the value is not a sequence -/
def repeated? (sequence : Value) (n : Int) : Exec (Option Value) := do
  match sequence with
  | .str s =>
    if n.natAbs ≤ maxSize && maxSize < s.length * n.toNat then fail .textOverflow
    let k ← repeatCount s.length n
    return some (.str (String.ofList (repeatItems s.toList k)))
  | .list cell =>
    let items := ((← get).list cell).toList
    let k ← repeatCount items.length n
    return some (← newList (repeatItems items k).toArray)
  | .tuple cell =>
    let items := (← get).tuple cell
    let k ← repeatCount items.length n
    return some (← newTuple (repeatItems items k))
  | _ => return none

/-- is the value a sequence that can be joined and repeated? -/
def isSequence : Value → Bool
  | .str _ => true
  | .list _ => true
  | .tuple _ => true
  | _ => false

/-- the fault of an operator on types that it does not take -/
def unsupported {α : Type} (op : ArithOp) (a b : Value) : Exec α :=
  fail (.unsupportedOperand op.text a.kindName b.kindName)

def joined (a b : Value) : Exec Value := do
  match a, b with
  | .str s, .str t => return .str (s ++ t)
  | .list i, .list j =>
    let w ← get
    newList (w.list i ++ w.list j)
  | .tuple i, .tuple j =>
    let w ← get
    newTuple (w.tuple i ++ w.tuple j)
  | a, b =>
    if isSequence a then fail (.cannotConcat a.kindName b.kindName) else unsupported .add a b

def multiplied (a b : Value) : Exec Value := do
  if isSequence a then
    match b.int? with
    | some n => return (← repeated? a n).getD .null
    | none => fail (.repeatBy b.kindName)
  else if isSequence b then
    match a.int? with
    | some n => return (← repeated? b n).getD .null
    | none => fail (.repeatBy a.kindName)
  else unsupported .mul a b

def arith (op : ArithOp) (a b : Value) : Exec Value := do
  match a.numeric?, b.numeric? with
  | some x, some y => ofNumeric (← ofExcept (Numeric.arith op x y))
  | _, _ =>
    match op, a with
    | .add, _ => joined a b
    | .mul, _ => multiplied a b
    | .mod, .str template => return .str (← formatTemplate template b)
    | op, _ => unsupported op a b

def power (a b : Value) : Exec Value := do
  match a.numeric?, b.numeric? with
  | some x, some y => ofNumeric (← ofExcept (Numeric.power x y))
  | _, _ => fail (.unsupportedOperand "** or pow()" a.kindName b.kindName)

end Exec

end BraceScript
