import BraceScript.Eval.Sequence

/-!
# Executing blocks and functions

The two operations that everything else calls back are collected in a machine: executing a tree
and calling a value. A machine of some fuel is built from one of less fuel.

The host bounds how deep calls may nest, and ends a program that goes deeper with a fault (`RecursionError`) of its own.
That bound depends on what runs the program and is left out: a machine has no other bound than its fuel.

* `Machine`        the two operations, with fuel for loops
* `runBlock`       executes statements in order
* `callFunction`   calls a function of a program
-/

namespace BraceScript

/-- the operations that all others call back -/
structure Machine where
  /-- execute a tree in a scope -/
  exec : Node → Nat → Exec Value
  /-- call a value with arguments -/
  call : Value → List Value → Exec Value
  /-- how many turns a loop may take -/
  fuel : Nat

/-- the value that a tuple returns from a block: a tuple marked as returned carries it. An empty tuple
has no mark to look at. -/
def returned? (v : Value) : Exec (Option Value) := do
  match v with
  | .tuple cell =>
    match (← get).tuple cell with
    | [] => Exec.fail (.indexRange "tuple")
    | mark :: rest =>
      if mark = .str "return" then
        match rest with
        | [] => Exec.fail (.indexRange "tuple")
        | value :: _ => return some value
      else return none
  | _ => return none

/-- execute statements in order. The value of a block is that of its last statement; included
files do not count, and a returned value ends the block. -/
def runBlock (m : Machine) (scope : Nat) (result : Value) : List Node → Exec Value
  | [] => pure result
  | .includeFile path :: rest => do
    let _ ← m.exec (.includeFile path) scope
    runBlock m scope result rest
  | .ret none :: _ => pure .null
  | .ret (some e) :: _ => m.exec e scope
  | statement :: rest => do
    let v ← m.exec statement scope
    match ← returned? v with
    | some value => return value
    | none => runBlock m scope v rest

/-! ## Functions -/

/-- the names of the parameters that take one argument each -/
def fixedNames : List (Param Node) → List String
  | [] => []
  | .receiver :: ps => "self" :: fixedNames ps
  | .plain name _ :: ps => name :: fixedNames ps
  | .rest _ :: ps => fixedNames ps
  | .keywords _ :: ps => fixedNames ps

/-- the last parameter that takes the remaining arguments -/
def restName (found : Option String) : List (Param Node) → Option String
  | [] => found
  | .rest name :: ps => restName (some name) ps
  | _ :: ps => restName found ps

/-- the last parameter that takes the keyword arguments -/
def keywordsName (found : Option String) : List (Param Node) → Option String
  | [] => found
  | .keywords name :: ps => keywordsName (some name) ps
  | _ :: ps => keywordsName found ps

/-- bind each name to its argument; a missing argument is a fault -/
def bindFixed (s : Scope) : List String → List Value → Except Fault Scope
  | [], _ => .ok s
  | _ :: _, [] => .error (.indexRange "list")
  | name :: names, v :: vs => bindFixed (s.insert name v) names vs

/-- the scope of a call: the parameters bound over the scope that the function was made in. The
arguments must have a text. -/
def callScope (c : Closure) (args : List Value) : Exec Scope := do
  let names := fixedNames c.params
  let w ← get
  let captured := w.scope c.scope
  if !names.isEmpty && !args.all w.showable then Exec.fail .tooManyDigits
  let scope ← Exec.ofExcept (bindFixed captured names args)
  let remaining := args.drop names.length
  let (scope, remaining) ←
    match restName none c.params with
    | none => pure (scope, remaining)
    | some name => do
      let rest ← Exec.newList remaining.toArray
      pure (scope.insert name rest, [])
  match keywordsName none c.params, remaining with
  | some name, [] => return scope.insert name (← Exec.newDict .empty)
  | some name, [.dict cell] => return scope.insert name (.dict cell)
  | some name, _ => Exec.fail (.keywordDict name)
  | none, [] => return scope
  | none, _ => Exec.fail .tooManyArguments

/-- call a function of a program -/
def callFunction (m : Machine) (cell : Nat) (args : List Value) : Exec Value := do
  let c := (← get).function cell
  let scope ← Exec.newScope (← callScope c args)
  let active := (← get).active
  modify fun w => { w with active := .scope scope :: active }
  let result ← runBlock m scope .null c.body
  modify fun w => { w with active := active }
  return result

end BraceScript
