import BraceScript.Eval.Builtins
import BraceScript.Eval.Operator

/-!
# Loops and comprehensions

A loop over a list visits the places that the list has at the start and reads each item when its
turn comes. A turn can be cut short, and the loop can be ended from inside.

* `loopTurn`       one turn of a loop
* `evalFor`, `whileTurns`   the loops
* `evalListComp`, `evalDictComp`   the comprehensions
-/

namespace BraceScript

/-! ## Loops -/

/-- run the body of a loop once; does the loop go on? -/
def loopTurn (body : Exec Value) : Exec Bool := do
  let active := (← get).active
  tryCatch (do
    let _ ← body
    return true) fun
    | .continueLoop => do
      modify fun w => { w with active := active }
      return true
    | .breakLoop => do
      modify fun w => { w with active := active }
      return false
    | signal => throw signal

def forPlaces (m : Machine) (scope : Nat) (var : String) (iterable : Value) (body : List Node) :
    List Int → Exec Value
  | [] => pure .null
  | i :: rest => do
    let item ← Exec.element iterable (.int i)
    Exec.bindName scope var item
    if ← loopTurn (runBlock m scope .null body) then forPlaces m scope var iterable body rest
    else return .null

/-- the places of a collection of a size that a step visits -/
def stepPlaces (size : Nat) (step : Value) : Exec (List Int) := do
  let step ← Exec.integerArgument step
  if step = 0 then Exec.fail .zeroRangeStep
  return rangeItems 0 size step

def evalFor (m : Machine) (scope : Nat) (var : String) (iterable : Node) (step : Option Node)
    (body : List Node) : Exec Value := do
  let v ← m.exec iterable scope
  let step ← match step with
    | some e => m.exec e scope
    | none => pure (.int 1)
  match v with
  | .list cell =>
    let places ← stepPlaces ((← get).list cell).size step
    forPlaces m scope var v body places
  | _ => Exec.fail .loopList

def whileTurns (m : Machine) (scope : Nat) (condition : Node) (body : List Node) :
    Nat → Exec Value
  | 0 => throw .exhausted
  | fuel + 1 => do
    if ← Exec.truth (← m.exec condition scope) then
      if ← loopTurn (runBlock m scope .null body) then whileTurns m scope condition body fuel
      else return .null
    else return .null

/-! ## Comprehensions -/

/-- does an item pass the conditions of a comprehension? There can be one. -/
def passes (m : Machine) (scope : Nat) (conditions : List Node) : Exec Bool := do
  match conditions with
  | [] => return true
  | [c] => Exec.truth (← m.exec c scope)
  | cs =>
    let w ← get
    Exec.fail (.unknownNode ("[" ++ commaSeparated (cs.map w.nodeText) ++ "]"))

/-- add the value of a list comprehension to its list -/
def collectValue (m : Machine) (scope : Nat) (body : Node) (values : Nat) : Exec Unit := do
  let v ← m.exec body scope
  Exec.modifyList values (·.push v)

/-- add the values of a list comprehension to its list, for the places of a collection -/
def collectPlaces (m : Machine) (scope : Nat) (body : Node) (var : String) (iterable : Value)
    (conditions : List Node) (values : Nat) : List Int → Exec Unit
  | [] => pure ()
  | i :: rest => do
    let item ← Exec.element iterable (.int i)
    Exec.bindName scope var item
    if ← passes m scope conditions then
      collectValue m scope body values
      collectPlaces m scope body var iterable conditions values rest
    else collectPlaces m scope body var iterable conditions values rest

/-- the collection of a list comprehension, and the places of it that are visited -/
def comprehensionPlaces (m : Machine) (scope : Nat) (iterable step : Node) :
    Exec (Value × List Int) := do
  let v ← m.exec iterable scope
  let s ← m.exec step scope
  let places ← stepPlaces (← Exec.length v) s
  return (v, places)

/-- a list comprehension. Its list counts as in use while it is evaluated. -/
def evalListComp (m : Machine) (scope : Nat) (body : Node) (var : String) (iterable step : Node)
    (conditions : List Node) : Exec Value := do
  let values := (← get).lists.size
  let result ← Exec.newList #[]
  let active := (← get).active
  modify fun w => { w with active := .list values :: active }
  let (v, places) ← comprehensionPlaces m scope iterable step
  collectPlaces m scope body var v conditions values places
  modify fun w => { w with active := active }
  return result

def evalDictComp (m : Machine) (scope : Nat) (key value : Node) (var : String) (iterable : Node)
    (condition : Option Node) : Exec Value := do
  let v ← m.exec iterable scope
  let d ← Exec.foldItems m.fuel v (fun (d : Dict) item => do
    Exec.bindName scope var item
    if ← passes m scope condition.toList then
      let (k, v) ← operands m scope key value
      Exec.checkKey k
      return d.insert k v
    else return d) .empty
  Exec.newDict d

def evalEntries (m : Machine) (scope : Nat) (d : Dict) : List (Node × Node) → Exec Dict
  | [] => pure d
  | (key, value) :: rest => do
    let (k, v) ← operands m scope key value
    Exec.checkKey k
    evalEntries m scope (d.insert k v) rest

def evalItems (m : Machine) (scope : Nat) (acc : Array Value) : List Node → Exec (Array Value)
  | [] => pure acc
  | e :: rest => do
    let v ← m.exec e scope
    evalItems m scope (acc.push v) rest

end BraceScript
