import BraceScript.Eval.Display
import BraceScript.Eval.Equality
import BraceScript.Eval.Files

/-!
# Sequences and collections

* `Exec.length`     the number of items
* `Exec.element`    the item at an index or under a key
* `Exec.putElement` put an item
* `Exec.slice`      the items of a slice
* `Exec.contains`   membership
* `Exec.items`      all items of a collection
* `Exec.foldItems`  go through a collection that may change on the way
-/

namespace BraceScript

/-- the place that an index names in a sequence, counted from the end when it is negative -/
def placeOf (size : Nat) (i : Int) : Option Nat :=
  let i := if i < 0 then i + size else i
  if 0 ≤ i && i < size then some i.toNat else none

/-- the numbers from `start` by `step`, `count` of them -/
def progression (start step : Int) : Nat → List Int
  | 0 => []
  | n + 1 => start :: progression (start + step) step n

/-- how many numbers a range from `start` before `stop` by `step` has; the step is not zero -/
def rangeCount (start stop step : Int) : Nat :=
  if 0 < step then
    if start < stop then ((stop - start - 1) / step + 1).toNat else 0
  else
    if stop < start then ((start - stop - 1) / (-step) + 1).toNat else 0

/-- the numbers from `start` before `stop` by `step` -/
def rangeItems (start stop step : Int) : List Int :=
  progression start step (rangeCount start stop step)

/-- a bound of a slice moved into the range of a sequence -/
def clampBound (size : Nat) (step : Int) (i : Int) : Int :=
  let i := if i < 0 then i + size else i
  let low : Int := if step < 0 then -1 else 0
  let high : Int := if step < 0 then (size : Int) - 1 else size
  if i < low then low else if high < i then high else i

def slicePlaces (size : Nat) (start stop : Option Int) (step : Int) : List Int :=
  let first := start.elim (if step < 0 then (size : Int) - 1 else 0) (clampBound size step)
  let last := stop.elim (if step < 0 then -1 else (size : Int)) (clampBound size step)
  rangeItems first last step

namespace Exec

def length (v : Value) : Exec Nat := do
  let w ← get
  match v with
  | .str s => return s.length
  | .list cell => return (w.list cell).size
  | .dict cell => return (w.dict cell).size
  | .tuple cell => return (w.tuple cell).length
  | v => fail (.noLength v.kindName)

def indexOf (sequence : Value) (index : Value) : Exec Int :=
  match index.int? with
  | some i => if i.natAbs < Nat.pow 2 63 then pure i else fail .indexSize
  | none => match sequence with
    | .str _ => fail (.textIndexType index.kindName)
    | v => fail (.indexType v.kindName index.kindName)

def element (collection index : Value) : Exec Value := do
  match collection with
  | .str s =>
    let i ← indexOf collection index
    let cs := s.toList
    match (placeOf cs.length i).bind (cs[·]?) with
    | some c => return .str c.toString
    | none => fail (.indexRange "string")
  | .list cell =>
    let i ← indexOf collection index
    let items := (← get).list cell
    match (placeOf items.size i).bind (items[·]?) with
    | some v => return v
    | none => fail (.indexRange "list")
  | .tuple cell =>
    let i ← indexOf collection index
    let items := (← get).tuple cell
    match (placeOf items.length i).bind (items[·]?) with
    | some v => return v
    | none => fail (.indexRange "tuple")
  | .dict cell =>
    match ← findKey cell index with
    | some v => return v
    | none => fail (.missingKey index)
  | v => fail (.notSubscriptable v.kindName)

def putElement (collection index value : Value) : Exec Unit := do
  match collection with
  | .list cell =>
    let i ← indexOf collection index
    match placeOf ((← get).list cell).size i with
    | some n => modifyList cell (·.setIfInBounds n value)
    | none => fail .assignRange
  | .dict cell => putKey cell index value
  | v => fail (.noItemAssignment v.kindName)

def sliceBound (v : Value) : Exec (Option Int) :=
  match v with
  | .null => pure none
  | v => match v.int? with
    | some i => pure (some i)
    | none => fail .sliceIndexType

/-- the items of a list or the characters of a text at the places of a slice -/
def slice (sequence start stop step : Value) : Exec Value := do
  let step := (← sliceBound step).getD 1
  if step = 0 then fail .zeroStep
  let start ← sliceBound start
  let stop ← sliceBound stop
  match sequence with
  | .str s =>
    let cs := s.toList.toArray
    return .str (String.ofList
      ((slicePlaces cs.size start stop step).filterMap fun i => cs[i.toNat]?))
  | .list cell =>
    let items := (← get).list cell
    newList ((slicePlaces items.size start stop step).filterMap fun i => items[i.toNat]?).toArray
  | _ => fail .sliceOnly

/-- all items of a collection; the fault is for values without items -/
def itemsOr (f : Fault) (v : Value) : Exec (List Value) := do
  let w ← get
  match v with
  | .str s => return s.toList.map fun c => .str c.toString
  | .list cell => return (w.list cell).toList
  | .dict cell => return (w.dict cell).keys
  | .tuple cell => return w.tuple cell
  | .file cell => readLines cell
  | _ => fail f

def items (v : Value) : Exec (List Value) := itemsOr (.notIterable v.kindName) v

def contains (collection v : Value) : Exec Bool := do
  match collection with
  | .str s =>
    match v with
    | .str part => return Text.holds part.toList s.toList
    | v => fail (.textMember v.kindName)
  | .dict cell => return (← findKey cell v).isSome
  | collection =>
    let all ← itemsOr (.notContainer collection.kindName) collection
    return all.any ((← get).matching · v)

/-- go through the items of a list, which may change on the way, from an index -/
def foldList {α : Type} (cell : Nat) (f : α → Value → Exec α) : Nat → Nat → α → Exec α
  | 0, _, _ => throw .exhausted
  | fuel + 1, i, a => do
    match ((← get).list cell)[i]? with
    | none => return a
    | some v => foldList cell f fuel (i + 1) (← f a v)

/-- go through the keys of a dictionary, which must keep its size -/
def foldDict {α : Type} (cell size : Nat) (f : α → Value → Exec α) : Nat → Nat → α → Exec α
  | 0, _, _ => throw .exhausted
  | fuel + 1, i, a => do
    let d := (← get).dict cell
    if d.size ≠ size then fail .dictResized
    match d.entries[i]? with
    | none => return a
    | some (k, _) => foldDict cell size f fuel (i + 1) (← f a k)

def foldFile {α : Type} (cell : Nat) (f : α → Value → Exec α) : Nat → α → Exec α
  | 0, _ => throw .exhausted
  | fuel + 1, a => do
    let line ← readLine cell
    if line.isEmpty then return a
    foldFile cell f fuel (← f a (.str line))

/-- go through a collection, which may change on the way; the fault is for values without items -/
def foldItemsOr {α : Type} (fault : Fault) (fuel : Nat) (v : Value) (f : α → Value → Exec α)
    (a : α) : Exec α := do
  match v with
  | .list cell => foldList cell f fuel 0 a
  | .dict cell => foldDict cell ((← get).dict cell).size f fuel 0 a
  | .file cell => foldFile cell f fuel a
  | v => (← itemsOr fault v).foldlM f a

/-- go through a collection, which may change on the way -/
def foldItems {α : Type} (fuel : Nat) (v : Value) (f : α → Value → Exec α) (a : α) : Exec α :=
  foldItemsOr (.notIterable v.kindName) fuel v f a

end Exec

end BraceScript
