import BraceScript.Eval.Operator

/-!
# Assignments, updates and items

* `evalAssign`, `evalAugAssign`, `evalGlobal`   variables
* `evalAugAttr`     updates of attributes
* `evalSetIndex`, `evalAugIndex`   items of collections
* `evalGetItem`, `evalIndex`, `evalSlice`   reading items and slices
-/

namespace BraceScript

/-- bind a name to a value; an unpacked dictionary is kept as a marked tuple -/
def evalAssign (m : Machine) (scope : Nat) (name : String) (value : Node) : Exec Value := do
  match value with
  | .keywordUnpack e =>
    let v ← m.exec e scope
    match v with
    | .dict _ =>
      let t ← Exec.newTuple [.str "kwunpack", v]
      Exec.bindName scope name t
      return t
    | _ => Exec.fail .unpackRight
  | e =>
    let v ← m.exec e scope
    Exec.bindName scope name v
    return v

def evalAugAssign (m : Machine) (scope : Nat) (name : String) (op : AugOp) (value : Node) :
    Exec Value := do
  match ((← get).scope scope).find? name with
  | none => Exec.fail (.unassigned name)
  | some old =>
    let v ← applyUpdate op (pure old) (m.exec value scope)
    Exec.bindName scope name v
    return v

def evalAugAttr (m : Machine) (scope : Nat) (object : Node) (attr : String) (op : AugOp)
    (value : Node) : Exec Value := do
  match ← m.exec object scope with
  | .dict cell =>
    let old := (((← get).dict cell).get? attr).getD .null
    let v ← applyUpdate op (pure old) (m.exec value scope)
    Exec.putKey cell (.str attr) v
    return v
  | v => Exec.fail (.attributeAssign attr (← Exec.plain v))

def evalAugIndex (m : Machine) (scope : Nat) (object index : Node) (op : AugOp) (value : Node) :
    Exec Value := do
  let (c, i) ← operands m scope object index
  let v ← applyUpdate op (Exec.element c i) (m.exec value scope)
  Exec.putElement c i v
  return .null

def evalSetIndex (m : Machine) (scope : Nat) (object index value : Node) : Exec Value := do
  let (c, i) ← operands m scope object index
  let v ← m.exec value scope
  match c with
  | .list _ =>
    Exec.putElement c i v
    return v
  | .dict _ =>
    Exec.putElement c i v
    return v
  | c => Exec.fail (.indexAssign (← Exec.plain c))

/-- make a name of the global scope visible -/
def evalGlobal (scope : Nat) (name : String) : Exec Value := do
  let w ← get
  match (w.scope w.globals).find? name with
  | some v => Exec.bindName scope name v
  | none =>
    Exec.bindName w.globals name .null
    Exec.bindName scope name .null
  return .null

/-- an item of a name; every failure to find it is reported alike -/
def evalGetItem (m : Machine) (scope : Nat) (object index : Node) : Exec Value := do
  let (c, i) ← operands m scope object index
  tryCatch (Exec.element c i) fun
    | .fault f =>
      match f.family with
      | .index | .key | .wrongType => do
        let object ← Exec.plain c
        Exec.fail (.cannotIndex object (← Exec.plain i))
      | _ => Exec.fail f
    | signal => throw signal

def evalIndex (m : Machine) (scope : Nat) (object index : Node) : Exec Value := do
  let (c, i) ← operands m scope object index
  match c with
  | .list _ => Exec.element c i
  | .str _ => Exec.element c i
  | .dict _ => Exec.element c i
  | _ => Exec.fail .indexOnly

def evalOption (m : Machine) (scope : Nat) : Option Node → Exec Value
  | none => pure .null
  | some e => m.exec e scope

def evalSlice (m : Machine) (scope : Nat) (object : Node) (start stop step : Option Node) :
    Exec Value := do
  let c ← m.exec object scope
  let isText := match c with
    | .list _ => true
    | .str _ => true
    | _ => false
  if !isText then Exec.fail .sliceOnly
  let start ← evalOption m scope start
  let stop ← evalOption m scope stop
  let step ← evalOption m scope step
  Exec.slice c start stop step

end BraceScript
