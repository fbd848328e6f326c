import BraceScript.Eval.Arithmetic
import BraceScript.Eval.Machine

/-!
# Operands, comparisons and updates

* `operands`        both operands of an operator, the left one first
* `compareValues`   the comparison operators
* `applyUpdate`     the operator of an updating assignment
-/

namespace BraceScript

def operands (m : Machine) (scope : Nat) (left right : Node) : Exec (Value × Value) := do
  let a ← m.exec left scope
  let b ← m.exec right scope
  return (a, b)

/-- the truth value of an order under a comparison operator -/
def orderHolds (op : CompareOp) (o : Option Ordering) : Option Bool :=
  match op with
  | .lt => some (o == some .lt)
  | .gt => some (o == some .gt)
  | .le => some (o == some .lt || o == some .eq)
  | .ge => some (o == some .gt || o == some .eq)
  | _ => none

/-- the order of two values: two numbers have one, unless one is not a number, and two texts -/
def Value.order? (a b : Value) : Option (Option Ordering) :=
  match a.numeric?, b.numeric?, a, b with
  | some x, some y, _, _ => some (x.compare? y)
  | _, _, .str s, .str t => some (some (compare s t))
  | _, _, _, _ => none

/-- compare two values. Numbers and texts have an order; all values can be equal. -/
def compareValues (op : CompareOp) (a b : Value) : Exec Value := do
  let w ← get
  match op with
  | .eq => return .bool (w.equal a b)
  | .ne => return .bool (!w.equal a b)
  | op =>
    match a.order? b with
    | none => Exec.fail (.notComparable op.text (w.className a) (w.className b))
    | some o => match orderHolds op o with
      | some b => return .bool b
      | none => Exec.fail (.missingKey (.str op.text))

def applyUpdate (op : AugOp) (old : Exec Value) (value : Exec Value) : Exec Value := do
  match op with
  | .arith op =>
    let a ← old
    let b ← value
    Exec.arith op a b
  | .other sign => Exec.fail (.missingKey (.str sign))

end BraceScript
