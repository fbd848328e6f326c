import BraceScript.Store.World

/-!
# Evaluations

An evaluation reads and changes the state and gives a value, or ends with a signal.

* `Exec`   an evaluation
* `Exec.fail`   ends with a fault
* `Exec.giveUp`   ends without an answer
* `Exec.newList`, `Exec.newDict`, ...   make cells
-/

namespace BraceScript

/-- an evaluation -/
abbrev Exec := EStateM Signal World

namespace Exec

def fail {α : Type} (f : Fault) : Exec α := throw (.fault f)

/-- end without an answer, where the host does something that is not followed here. What is said about a
program says nothing about such runs. There are four causes: a text with half of a surrogate pair, which is no
text here; a character that is asked for by its name; the methods of a class that is its own ancestor; and
embedded statements outside the part of their language that is read. -/
def giveUp {α : Type} : Exec α := throw .exhausted

/-- the text of a character that is given by its number -/
def character (n : Nat) : Exec String :=
  if n.isValidChar then pure (Char.ofNat n).toString else giveUp

/-- use a result that does not change the state -/
def ofExcept {α : Type} : Except Fault α → Exec α
  | .ok a => pure a
  | .error f => fail f

/-- use a function of the state that may fail -/
def query {α : Type} (f : World → Except Fault α) : Exec α := do ofExcept (f (← get))

def newList (items : Array Value) : Exec Value :=
  modifyGet fun w => (.list w.lists.size, { w with lists := w.lists.push items })

def newDict (d : Dict) : Exec Value :=
  modifyGet fun w => (.dict w.dicts.size, { w with dicts := w.dicts.push d })

/-- make a tuple; the first cell is the empty one -/
def newTuple (items : List Value) : Exec Value :=
  if items.isEmpty then pure (.tuple 0)
  else modifyGet fun w => (.tuple w.tuples.size, { w with tuples := w.tuples.push items })

def newFunction (c : Closure) : Exec Nat :=
  modifyGet fun w => (w.functions.size, { w with functions := w.functions.push c })

def newCallable (c : Callable) : Exec Value :=
  modifyGet fun w => (.callable w.callables.size, { w with callables := w.callables.push c })

def newScope (s : Scope) : Exec Nat :=
  modifyGet fun w => (w.scopes.size, { w with scopes := w.scopes.push s })

/-- a double as a value; one that is not a number gets an identity -/
def newDouble (x : Double) : Exec Value :=
  if x.isNaN then modifyGet fun w => (.nan w.nans, { w with nans := w.nans + 1 })
  else pure (.float x)

def setList (cell : Nat) (items : Array Value) : Exec Unit :=
  modify fun w => { w with lists := w.lists.setIfInBounds cell items }

/-- change the items of a list by a function -/
def modifyList (cell : Nat) (f : Array Value → Array Value) : Exec Unit :=
  modify fun w => { w with lists := w.lists.modify cell f }

/-- change the entries of a dictionary by a function -/
def modifyDict (cell : Nat) (f : Dict → Dict) : Exec Unit :=
  modify fun w => { w with dicts := w.dicts.modify cell f }

def modifyHandle (cell : Nat) (f : Handle → Handle) : Exec Unit :=
  modify fun w => { w with handles := w.handles.modify cell f }

def bindName (scope : Nat) (name : String) (value : Value) : Exec Unit :=
  modify fun w => { w with scopes := w.scopes.modify scope (·.insert name value) }

/-- bind the message of a handler, which may have no name -/
def bindMessage (scope : Nat) (name : Option String) (value : Value) : Exec Unit :=
  match name with
  | some name => bindName scope name value
  | none => modify fun w =>
    { w with scopes := w.scopes.modify scope fun s => { s with unnamed := some value } }

def lookup (scope : Nat) (name : String) : Exec Value := do
  match ((← get).scope scope).find? name with
  | some v => return v
  | none => fail (.undefined name)

def write (s : String) : Exec Unit := modify fun w => { w with output := w.output ++ s }

end Exec

end BraceScript
