import BraceScript.Eval.Sequence

/-!
# Attributes

The attributes of an instance are found in its class and then in the parents of the class, depth
first; methods come before fields. Texts, lists and files have methods of their own, and any other
dictionary has its entries.

* `ClassTable.search`   the method or field that an attribute names in a class
* `Exec.getAttribute`   the value of an attribute
* `Exec.putAttribute`   put an attribute
-/

namespace BraceScript

inductive Found
  | method (cell : Nat)
  | field
deriving DecidableEq, Repr

/-- what an attribute names in a class itself: a method by its name, by its name qualified with the
class, or by its name in the form used inside a class; else a field -/
def ClassInfo.own? (c : ClassInfo) (className attr : String) : Option Found :=
  match c.methods.lookup attr <|> c.methods.lookup (className ++ "." ++ attr) <|>
      c.methods.lookup ("self." ++ attr) with
  | some cell => some (.method cell)
  | none => if c.fields.any (·.1 = attr) then some .field else none

namespace ClassTable

/-- the number of classes and parents, which bounds a search -/
def searchBound (t : ClassTable) : Nat :=
  t.classes.foldl (fun n (_, c) => n + (c.parents.getD []).length + 1) 2

/-- search classes in order, each with its parents before the next; those already searched are
passed over -/
def searchFrom (t : ClassTable) (attr : String) : Nat → List String → List String → Option Found
  | 0, _, _ => none
  | _, [], _ => none
  | fuel + 1, name :: todo, checked =>
    if checked.contains name then searchFrom t attr fuel todo checked
    else match t.find? name with
      | none => searchFrom t attr fuel todo checked
      | some c => match c.own? name attr with
        | some found => some found
        | none => searchFrom t attr fuel ((c.parents.getD []) ++ todo) (name :: checked)

/-- the method or field that an attribute names in a class or its parents -/
def search (t : ClassTable) (className attr : String) : Option Found :=
  t.searchFrom attr t.searchBound [className] []

def addName (names : List String) (name : String) : List String :=
  if names.contains name then names else names ++ [name]

/-- the names of the methods of a class and its ancestors, after some names. Each class comes once for each way
that leads to it; a way through more classes than there are has no end. -/
def collectMethods (t : ClassTable) : Nat → List String → String → Option (List String)
  | 0, _, _ => none
  | fuel + 1, names, className =>
    match t.find? className with
    | none => some names
    | some c =>
      (c.parents.getD []).foldlM (collectMethods t fuel) ((c.methods.map Prod.fst).foldl addName names)

/-- the names of the methods of a class and its ancestors, unless a class is its own ancestor. The host keeps
them in a set; here they are in the order in which they are found. -/
def methodNames? (t : ClassTable) (className : String) : Option (List String) :=
  t.collectMethods (t.classes.length + 1) [] className

end ClassTable

namespace Exec

/-- the names of the methods of an instance -/
def memberNames (type : Value) : Exec (List String) := do
  match type with
  | .str name =>
    match (← get).classes.methodNames? name with
    | some names => return names
    | none => giveUp
  | _ => return []

/-- the fault for an attribute that an instance does not have, with those that it has -/
def noMember (cell : Nat) (type : Value) (attr : String) (names : List String) : Exec Value := do
  let keys ← ((← get).dict cell).keys.mapM shown
  let available := "[" ++ commaSeparated (keys ++ names.map Text.quoted) ++ "]"
  fail (.noMember (← plain type) attr available)

/-- an attribute of an instance that its classes do not have. The methods of the instance are collected first. -/
def otherAttribute (cell : Nat) (type : Value) (attr : String) : Exec Value := do
  let names ← memberNames type
  if type = .str "__file__" then
    match ((← get).dict cell).get? "__file__" with
    | none => fail (.missingKey (.str "__file__"))
    | some file =>
      match FileMethod.ofName? attr with
      | some m => newCallable (.fileMethod m file)
      | none => noMember cell type attr names
  else noMember cell type attr names

/-- the value of an attribute of an instance -/
def instanceAttribute (cell : Nat) (type : Value) (attr : String) : Exec Value := do
  checkKey type
  let w ← get
  let found := match type with
    | .str name => w.classes.search name attr
    | _ => none
  match found with
  | some (.method function) => newCallable (.method function (.dict cell))
  | some .field => return ((w.dict cell).get? attr).getD .null
  | none => otherAttribute cell type attr

def getAttribute (object : Value) (attr : String) : Exec Value := do
  match object with
  | .dict cell =>
    let d := (← get).dict cell
    match d.get? "__type__" with
    | some type => instanceAttribute cell type attr
    | none => match d.get? attr with
      | some v => return v
      | none => fail (.noAttribute attr)
  | .str s =>
    match TextMethod.ofName? attr with
    | some m => newCallable (.textMethod m s)
    | none => fail (.noAttribute attr)
  | .list cell =>
    match ListMethod.ofName? attr with
    | some m => newCallable (.listMethod m cell)
    | none => fail (.noAttribute attr)
  | _ => fail (.noAttribute attr)

/-- put an attribute of a dictionary; `target` is the tree of the object -/
def putAttribute (target : Node) (object : Value) (attr : String) (value : Value) : Exec Unit := do
  match object with
  | .null => fail (.nullAssign attr ((← get).nodeText target))
  | .dict cell => putKey cell (.str attr) value
  | .list _ => putElement object (.str attr) value
  | v => fail (.attributeAssign attr (← plain v))

end Exec

end BraceScript
