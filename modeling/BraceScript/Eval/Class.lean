import BraceScript.Eval.Machine

/-!
# Classes and their instances

A class is registered under its name, and the classes inside it under names qualified with it. A
constructor fills the fields of an instance with its arguments in order and the rest with defaults.

* `registerClass`   registers a class and the classes inside it
* `construct`       makes an instance
-/

namespace BraceScript

def ClassDecl.name {α : Type} : ClassDecl α → String
  | .mk name .. => name

def qualify (outer : Option String) (name : String) : String :=
  match outer with
  | some outer => outer ++ "." ++ name
  | none => name

/-- make the methods of a class, which see the global variables -/
def makeMethods (globals : Nat) : List (Method Node) → List (String × Nat) → Exec (List (String × Nat))
  | [], made => pure made
  | m :: ms, made => do
    let cell ← Exec.newFunction ⟨m.params, m.body, globals⟩
    makeMethods globals ms (putAt m.name cell made)

/-- the parents of a class; a parent that is also a class inside it is qualified with the class
around it -/
def qualifiedParents (outer : Option String) (inner parents : List String) : List String :=
  parents.map fun p => if outer.isSome && inner.contains p then qualify outer p else p

mutual

/-- register a class inside another one, and the classes inside it -/
def registerClass (globals : Nat) (outer : Option String) (t : ClassTable) :
    ClassDecl Node → Exec ClassTable
  | .mk name parents fields methods nested => do
    let inner := nested.map ClassDecl.name
    let made ← makeMethods globals methods []
    let info : ClassInfo := ⟨fields, some (qualifiedParents outer inner parents), made⟩
    let full := qualify outer name
    registerClasses globals full (t.insert full info) nested

def registerClasses (globals : Nat) (outer : String) (t : ClassTable) :
    List (ClassDecl Node) → Exec ClassTable
  | [] => pure t
  | c :: cs => do
    let t ← registerClass globals (some outer) t c
    registerClasses globals outer t cs

end

/-- the classes inside a class by their names, with their qualified names -/
def qualifiedNames : ClassDecl Node → List (String × String)
  | .mk name _ _ _ nested =>
    nested.foldl (fun acc c => putAt c.name (name ++ "." ++ c.name) acc) []

def constructorOf (included : Bool) : ClassDecl Node → Callable
  | c@(.mk name _ fields _ _) => .constructor name fields (qualifiedNames c) included

def classNamed? (w : World) : Value → Option (String × ClassInfo)
  | .str name => (w.classes.find? name).map fun c => (name, c)
  | _ => none

/-- the value of the default of a field. The names of classes inside the class stand for their
qualified names, and a method of a class can be named by it. -/
def fieldDefault (m : Machine) (qualified : List (String × String)) (globals : Nat) :
    Node → Exec Value
  | .var name =>
    match qualified.lookup name with
    | some full => pure (.str full)
    | none => m.exec (.var name) globals
  | .getAttr left attr => do
    let object ← fieldDefault m qualified globals left
    match classNamed? (← get) object with
    | some (name, c) =>
      match c.methods.lookup attr with
      | some cell => return .function cell
      | none => Exec.fail (.noMethod name attr)
    | none => m.exec (.getAttr (.quoted object) attr) globals
  | node => m.exec node globals

def fillFields (m : Machine) (qualified : List (String × String)) (d : Dict) :
    List (String × Option Node) → List Value → Exec Dict
  | [], _ => pure d
  | (name, _) :: fields, v :: args => fillFields m qualified (d.insert (.str name) v) fields args
  | (name, none) :: fields, [] =>
    fillFields m qualified (d.insert (.str name) .null) fields []
  | (name, some e) :: fields, [] => do
    let v ← fieldDefault m qualified (← get).globals e
    fillFields m qualified (d.insert (.str name) v) fields []

/-- make an instance of a class -/
def construct (m : Machine) (className : String) (fields : List (String × Option Node))
    (qualified : List (String × String)) (args : List Value) : Exec Value := do
  let d ← fillFields m qualified ⟨[(.str "__type__", .str className)]⟩ fields args
  Exec.newDict d

/-- register a class and bind its name to its constructor -/
def declareClass (c : ClassDecl Node) : Exec Value := do
  let w ← get
  let t ← registerClass w.globals none w.classes c
  modify fun w => { w with classes := t }
  let made ← Exec.newCallable (constructorOf false c)
  Exec.bindName w.globals c.name made
  return .null

def splitMethodName (name : String) : Option (String × String) :=
  let cs := name.toList
  match cs.dropWhile (· ≠ '.') with
  | [] => none
  | _ :: rest => some (String.ofList (cs.takeWhile (· ≠ '.')), String.ofList rest)

/-- define a function in a scope; a dotted name attaches it to a class -/
def declareFunction (f : Method Node) (scope : Nat) : Exec Value := do
  let cell ← Exec.newFunction ⟨f.params, f.body, scope⟩
  match splitMethodName f.name with
  | some (className, name) =>
    modify fun w => { w with classes := w.classes.addMethod className name cell }
  | none => Exec.bindName scope f.name (.function cell)
  return .null

end BraceScript
