import BraceScript.Eval.Equality

/-!
# Sorting lists

A stable sort by insertion: the longest run at the front that is already in order, or strictly in
reverse order, is taken as it is, and each further item is put in its place by bisection. When two
items cannot be compared the items sorted so far stay as they are.

* `sortItems`   the items in order, or as far as they were sorted, with the fault that stopped it
-/

namespace BraceScript

/-- the result of a sort: the items, and the fault that stopped it -/
structure Sorted where
  items : List Value
  fault : Option Fault

/-- the length of the run at the front, after an item, while `step` holds between neighbours -/
def runLength (step : Value → Value → Except Fault Bool) (last : Value) :
    List Value → Except Fault Nat
  | [] => .ok 0
  | v :: rest => do
    if ← step last v then return (← runLength step v rest) + 1 else return 0

/-- the place of an item in a sorted array, after all that are not greater, by bisection -/
def insertPlace (less : Value → Value → Except Fault Bool) (sorted : Array Value) (v : Value) :
    Nat → Nat → Nat → Except Fault Nat
  | 0, low, _ => .ok low
  | fuel + 1, low, high =>
    if low < high then do
      let middle := (low + high) / 2
      if ← less v (sorted.getD middle .null) then insertPlace less sorted v fuel low middle
      else insertPlace less sorted v fuel (middle + 1) high
    else .ok low

/-- put items one by one into a sorted array -/
def insertAll (less : Value → Value → Except Fault Bool) (sorted : Array Value) :
    List Value → Sorted
  | [] => ⟨sorted.toList, none⟩
  | v :: rest =>
    match insertPlace less sorted v (sorted.size + 1) 0 sorted.size with
    | .error f => ⟨sorted.toList ++ v :: rest, some f⟩
    | .ok n => insertAll less (sorted.insertIdxIfInBounds n v) rest

/-- the items in order, or as far as they were sorted -/
def sortForward (less : Value → Value → Except Fault Bool) (items : List Value) : Sorted :=
  match items with
  | a :: b :: rest =>
    match less b a with
    | .error f => ⟨items, some f⟩
    | .ok down =>
      let step := if down then fun x y => less y x
        else fun x y => do return !(← less y x)
      match runLength step b rest with
      | .error f => ⟨items, some f⟩
      | .ok n =>
        let run := (items.take (n + 2))
        let run := if down then run.reverse else run
        insertAll less run.toArray (items.drop (n + 2))
  | _ => ⟨items, none⟩

/-- the items in order, or in reverse order with equal items kept in theirs -/
def sortItems (less : Value → Value → Except Fault Bool) (reverse : Bool) (items : List Value) :
    Sorted :=
  if reverse then
    let s := sortForward less items.reverse
    ⟨s.items.reverse, s.fault⟩
  else sortForward less items

end BraceScript
