import BraceScript.Node.Basic

/-!
# The class table

Classes by their qualified names, in the order in which they were first registered.

* `ClassInfo`   fields with their defaults, parents, and methods by name
* `ClassTable.find?`, `ClassTable.insert`   look up and register a class
* `ClassTable.addMethod`   attach a method, making the class if it is not there
-/

namespace BraceScript

/-- a registered class. A class that only methods were attached to has no list of parents. -/
structure ClassInfo where
  fields : List (String × Option Node)
  parents : Option (List String)
  /-- the cells of the methods by name -/
  methods : List (String × Nat)
deriving Inhabited

/-- put a value under a name: a name that is there keeps its place -/
def putAt {α : Type} (name : String) (value : α) : List (String × α) → List (String × α)
  | [] => [(name, value)]
  | (k, v) :: rest => if k = name then (k, value) :: rest else (k, v) :: putAt name value rest

def ClassInfo.addMethod (c : ClassInfo) (name : String) (cell : Nat) : ClassInfo :=
  { c with methods := putAt name cell c.methods }

structure ClassTable where
  classes : List (String × ClassInfo)
deriving Inhabited

namespace ClassTable

def empty : ClassTable := ⟨[]⟩

def find? (t : ClassTable) (name : String) : Option ClassInfo := t.classes.lookup name

def insert (t : ClassTable) (name : String) (c : ClassInfo) : ClassTable :=
  ⟨putAt name c t.classes⟩

def update (t other : ClassTable) : ClassTable :=
  other.classes.foldl (fun t (name, c) => t.insert name c) t

/-- attach a method to a class, which is made without parents if it is not there -/
def addMethod (t : ClassTable) (className name : String) (cell : Nat) : ClassTable :=
  t.insert className (((t.find? className).getD ⟨[], none, []⟩).addMethod name cell)

end ClassTable

end BraceScript
