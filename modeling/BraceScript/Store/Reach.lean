import BraceScript.Store.World

/-!
# What a program can still reach

* `World.reached`  the cells that can be reached from the variables of a program
-/

namespace BraceScript

namespace World

def next (w : World) : Cell → List Cell
  | .list n => (w.list n).toList.filterMap Value.cell?
  | .dict n => (w.dict n).keys.filterMap Value.cell? ++ (w.dict n).values.filterMap Value.cell?
  | .tuple n => (w.tuple n).filterMap Value.cell?
  | .function n => (w.functions[n]?.map fun c => Cell.scope c.scope).toList
  | .callable n =>
    match w.callable n with
    | .constructor .. => []
    | .method function self => .function function :: self.cell?.toList
    | .textMethod .. => []
    | .listMethod _ cell => [.list cell]
    | .fileMethod _ file => file.cell?.toList
  | .scope n => ((w.scope n).vars.map Prod.snd).filterMap Value.cell?
  | .file _ => []

/-- the cells reached from `todo`, with those already seen -/
def reachFrom (w : World) : Nat → List Cell → List Cell → List Cell
  | 0, _, seen => seen
  | _, [], seen => seen
  | fuel + 1, c :: todo, seen =>
    if seen.contains c then reachFrom w fuel todo seen
    else reachFrom w fuel (w.next c ++ todo) (c :: seen)

/-- the cells that variables, unfinished evaluations and classes name -/
def roots (w : World) : List Cell :=
  .scope w.globals :: .list w.arguments :: w.active ++
    w.classes.classes.flatMap fun (_, c) => c.methods.map fun (_, f) => .function f

/-- the cells of the store, apart from open files, which name no others -/
def cells (w : World) : List Cell :=
  (List.range w.lists.size).map .list ++ (List.range w.dicts.size).map .dict ++
    (List.range w.tuples.size).map .tuple ++ (List.range w.functions.size).map .function ++
    (List.range w.callables.size).map .callable ++ (List.range w.scopes.size).map .scope

/-- how many cells are named by the given ones, apart from those already seen -/
def named (w : World) (seen : List Cell) : List Cell → Nat
  | [] => 0
  | c :: cs => (if seen.contains c then 0 else (w.next c).length) + named w seen cs

/-- more steps than a search through all cells takes -/
def searchBound (w : World) : Nat := w.roots.length + w.named [] w.cells + 1

/-- the cells that can be reached from the variables of a program -/
def reached (w : World) : List Cell := w.reachFrom w.searchBound w.roots []

end World

end BraceScript
