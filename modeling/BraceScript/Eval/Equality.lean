import BraceScript.Eval.Basic

/-!
# Equality, order and truth of values

* `World.equal`   equality: numbers by value, containers by their contents
* `World.less`    the order used by sorting
* `World.truth`   what counts as true in a condition
* `World.unhashable?`   the type that keeps a value from being a key
-/

namespace BraceScript

namespace World

/-- are the items of two lists pairwise identical or equal? -/
def pairwise (eq : Value → Value → Bool) : List Value → List Value → Bool
  | [], [] => true
  | a :: as, b :: bs => (a = b || eq a b) && pairwise eq as bs
  | _, _ => false

/-- does a dictionary hold an entry, up to a given equality of values? -/
def holdsEntry (eq : Value → Value → Bool) (d : Dict) (entry : Value × Value) : Bool :=
  match d.find? entry.1 with
  | none => false
  | some u => entry.2 = u || eq entry.2 u

/-- equality of values, with a given equality for the items of containers -/
def equalStep (w : World) (eq : Value → Value → Bool) (a b : Value) : Bool :=
  match a.numeric?, b.numeric? with
  | some x, some y => x.equal y
  | some _, none => false
  | none, some _ => false
  | none, none =>
    match a, b with
    | .list i, .list j => pairwise eq (w.list i).toList (w.list j).toList
    | .tuple i, .tuple j => pairwise eq (w.tuple i) (w.tuple j)
    | .dict i, .dict j =>
      let d := w.dict i
      let e := w.dict j
      d.size = e.size && d.entries.all (holdsEntry eq e)
    | a, b => a = b

/-- equality of values, containers compared to a given depth -/
def equalWith (w : World) : Nat → Value → Value → Bool
  | 0 => fun _ _ => false
  | fuel + 1 => w.equalStep (equalWith w fuel)

def equal (w : World) (a b : Value) : Bool := w.equalWith w.depth a b

def matching (w : World) (a b : Value) : Bool := a = b || w.equal a b

/-- the order of two lists: by the first items that differ, else by length -/
def lessItems (eq : Value → Value → Bool) (lt : Value → Value → Except Fault Bool) :
    List Value → List Value → Except Fault Bool
  | a :: as, b :: bs => if a = b || eq a b then lessItems eq lt as bs else lt a b
  | [], _ :: _ => .ok true
  | _, [] => .ok false

/-- the order of values, with a given order for the items of containers -/
def lessStep (w : World) (lt : Value → Value → Except Fault Bool) (a b : Value) : Except Fault Bool :=
  match a.numeric?, b.numeric? with
  | some x, some y => .ok (x.compare? y == some .lt)
  | _, _ =>
    match a, b with
    | .str s, .str t => .ok (s < t)
    | .list i, .list j => lessItems w.equal lt (w.list i).toList (w.list j).toList
    | .tuple i, .tuple j => lessItems w.equal lt (w.tuple i) (w.tuple j)
    | a, b => .error (.notOrdered a.kindName b.kindName)

/-- the order of values, containers compared to a given depth -/
def lessWith (w : World) : Nat → Value → Value → Except Fault Bool
  | 0 => fun _ _ => .ok false
  | fuel + 1 => w.lessStep (lessWith w fuel)

/-- is the first value less than the second? -/
def less (w : World) (a b : Value) : Except Fault Bool := w.lessWith w.depth a b

/-- what counts as true in a condition: all but zero, the absent value and what is empty -/
def truth (w : World) (v : Value) : Bool :=
  match v with
  | .null => false
  | .str s => !s.isEmpty
  | .list cell => !(w.list cell).isEmpty
  | .dict cell => !(w.dict cell).entries.isEmpty
  | .tuple cell => !(w.tuple cell).isEmpty
  | v => match v.numeric? with
    | some x => x.isTrue
    | none => true

/-- the type that keeps a value from being a key of a dictionary -/
def unhashable? (w : World) : Value → Option String
  | .list _ => some "list"
  | .dict _ => some "dict"
  | .tuple cell => (w.tuple cell).findSome? fun
    | .list _ => some "list"
    | .dict _ => some "dict"
    | _ => none
  | _ => none

end World

namespace Exec

def truth (v : Value) : Exec Bool := do return (← get).truth v

/-- fail unless a value can be a key of a dictionary -/
def checkKey (v : Value) : Exec Unit := do
  match (← get).unhashable? v with
  | some type => fail (.unhashable type)
  | none => return ()

/-- the value under a key of a dictionary, if there is one -/
def findKey (cell : Nat) (key : Value) : Exec (Option Value) := do
  checkKey key
  return ((← get).dict cell).find? key

/-- put a value under a key of a dictionary -/
def putKey (cell : Nat) (key value : Value) : Exec Unit := do
  checkKey key
  modifyDict cell (·.insert key value)

end Exec

end BraceScript
