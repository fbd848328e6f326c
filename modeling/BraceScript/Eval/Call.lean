import BraceScript.Eval.Attribute
import BraceScript.Eval.Methods
import BraceScript.Eval.Module

/-!
# Calls

* `callBuiltin`   calls a builtin function
* `callValue`     calls any value
* `evalCall`      evaluates a call with positional, unpacked and keyword arguments
-/

namespace BraceScript

/-! ## Builtin functions that call others -/

def twoArguments (args : List Value) : Exec (Value × Value) :=
  match args with
  | [a, b] => pure (a, b)
  | args =>
    if args.length < 2 then Exec.fail (.unpackFew 2 args.length) else Exec.fail (.unpackMany 2)

/-- the results of a function on the items of a collection -/
def mapItems (m : Machine) (args : List Value) : Exec Value := do
  let (f, v) ← twoArguments args
  let results ← Exec.foldItems m.fuel v
    (fun (acc : Array Value) x => do return acc.push (← m.call f [x])) #[]
  Exec.newList results

/-- the items of a collection for which a function gives something true -/
def filterItems (m : Machine) (args : List Value) : Exec Value := do
  let (f, v) ← twoArguments args
  let results ← Exec.foldItems m.fuel v
    (fun (acc : Array Value) x => do
      if ← Exec.truth (← m.call f [x]) then return acc.push x else return acc) #[]
  Exec.newList results

/-- one step of a reduction: the first item starts it -/
def reduceStep (m : Machine) (f : Value) (acc : Option Value) (x : Value) :
    Exec (Option Value) := do
  match acc with
  | none => return some x
  | some a => return some (← m.call f [a, x])

/-- the items of a collection combined from the left -/
def reduceItems (m : Machine) (args : List Value) : Exec Value := do
  let (f, v, start) ←
    match args with
    | [f, v] => pure (f, v, none)
    | [f, v, start] => pure (f, v, some start)
    | _ => Exec.fail .reduceArity
  match ← Exec.foldItemsOr .reduceIteration m.fuel v (reduceStep m f) start with
  | some result => return result
  | none => Exec.fail .reduceEmpty

def callBuiltin (m : Machine) (b : Builtin) (args : List Value) : Exec Value := do
  match b with
  | .print => Exec.printValues args
  | .printf => Exec.printFormatted args
  | .range => Exec.toRange args
  | .input => Exec.readInput args
  | .type => return .str (← Exec.argument args 0).typeName
  | .int => Exec.toInt (← Exec.argument args 0)
  | .float => Exec.toFloat (← Exec.argument args 0)
  | .str => return .str (← Exec.plain (← Exec.argument args 0))
  | .list => Exec.newList (← Exec.items (← Exec.argument args 0)).toArray
  | .dict => Exec.toDict (← Exec.argument args 0)
  | .length => return .int (← Exec.length (← Exec.argument args 0))
  | .openFile => Exec.toFile args
  | .map => mapItems m args
  | .filter => filterItems m args
  | .reduce => reduceItems m args
  | .chr => Exec.toCharacter (← Exec.argument args 0)
  | .all =>
    let w ← get
    return .bool (args.all w.truth)
  | .any =>
    let w ← get
    return .bool (args.any w.truth)
  | .pow =>
    let base ← Exec.argument args 0
    Exec.power base (← Exec.argument args 1)
  | .ord => Exec.toOrdinal (← Exec.argument args 0)
  | .load => includeModule args
  -- embedded statements keep these to themselves
  | .host h => Exec.fail (.notCallable h.typeName)

/-- call any value -/
def callValue (m : Machine) (f : Value) (args : List Value) : Exec Value := do
  match f with
  | .function cell => callFunction m cell args
  | .builtin b => callBuiltin m b args
  | .callable cell =>
    match (← get).callable cell with
    | .constructor className fields qualified _ => construct m className fields qualified args
    | .method function self => callFunction m function (self :: args)
    | .textMethod t s => Exec.callTextMethod t s args
    | .listMethod t cell => Exec.callListMethod t cell args
    | .fileMethod t file => Exec.callFileMethod t file args
  | v => Exec.fail (.notCallable v.kindName)

/-! ## Arguments -/

/-- evaluated arguments: positional ones, and keyword ones by their names -/
structure Arguments where
  positional : List Value
  keywords : Dict

/-- the dictionary that a marked tuple carries, or the value itself -/
def unmarked (v : Value) : Exec Value := do
  match v with
  | .tuple cell =>
    match (← get).tuple cell with
    | [] => Exec.fail (.indexRange "tuple")
    | mark :: rest =>
      if mark = .str "kwunpack" then
        match rest with
        | [] => Exec.fail (.indexRange "tuple")
        | d :: _ => return d
      else return v
  | v => return v

/-- add the items of a list or tuple to the positional arguments -/
def addUnpacked (a : Arguments) (v : Value) : Exec Arguments := do
  let w ← get
  match v with
  | .list cell => return { a with positional := a.positional ++ (w.list cell).toList }
  | .tuple cell => return { a with positional := a.positional ++ w.tuple cell }
  | _ => Exec.fail .unpackList

/-- add the entries of a dictionary to the keyword arguments; the fault is for other values -/
def addKeywords (a : Arguments) (f : Fault) (v : Value) : Exec Arguments := do
  match v with
  | .dict cell => return { a with keywords := a.keywords.update ((← get).dict cell) }
  | _ => Exec.fail f

/-- is a value a tuple that marks keyword arguments? -/
def isMarked (v : Value) : Exec Bool := do
  match v with
  | .tuple cell => return ((← get).tuple cell).head? = some (.str "kwunpack")
  | _ => return false

def evalArguments (m : Machine) (scope : Nat) (a : Arguments) : List Node → Exec Arguments
  | [] => pure a
  | .unpack e :: rest => do
    let a ← addUnpacked a (← m.exec e scope)
    evalArguments m scope a rest
  | .keywordUnpack e :: rest => do
    let a ← addKeywords a .unpackKeywords (← unmarked (← m.exec e scope))
    evalArguments m scope a rest
  | .quoted t :: rest => do
    let v ← m.exec (.quoted t) scope
    if ← isMarked v then
      let a ← addKeywords a .unpackKeywords (← unmarked v)
      evalArguments m scope a rest
    else evalArguments m scope { a with positional := a.positional ++ [v] } rest
  | e :: rest => do
    let v ← m.exec e scope
    evalArguments m scope { a with positional := a.positional ++ [v] } rest

def evalKeywords (m : Machine) (scope : Nat) (a : Arguments) :
    List (String × Node) → Exec Arguments
  | [] => pure a
  | (name, e) :: rest => do
    let v ← m.exec e scope
    let a ← if name = "kwunpack" then addKeywords a .unpackNamed v
      else pure { a with keywords := a.keywords.insert (.str name) v }
    evalKeywords m scope a rest

/-! ## Binding arguments to parameters -/

/-- is a parameter one that takes remaining arguments? -/
def Param.isCollector {α : Type} : Param α → Bool
  | .rest _ => true
  | .keywords _ => true
  | _ => false

/-- the argument for a parameter that has no argument yet: its default or a fault -/
def defaultArgument (m : Machine) (scope : Nat) (name : String) : Option Node → Exec Value
  | some e => m.exec e scope
  | none => Exec.fail (.missingArgument name)

/-- bind arguments in the order of the parameters of a function with a collecting parameter. A
positional argument comes before a keyword argument. -/
def bindCollecting (m : Machine) (scope : Nat) (a : Arguments) :
    List (Param Node) → Exec (List Value × Dict)
  | [] => pure ([], a.keywords)
  | .receiver :: _ => Exec.fail (.unpackMany 2)
  | .keywords _ :: ps => do
    let d ← Exec.newDict a.keywords
    let (vs, left) ← bindCollecting m scope { a with keywords := .empty } ps
    return (d :: vs, left)
  | .rest _ :: ps => do
    let l ← Exec.newList a.positional.toArray
    let (vs, left) ← bindCollecting m scope { a with positional := [] } ps
    return (l :: vs, left)
  | .plain name value :: ps => do
    match a.positional with
    | v :: positional =>
      let (vs, left) ← bindCollecting m scope { a with positional := positional } ps
      return (v :: vs, left)
    | [] =>
      match a.keywords.get? name with
      | some v =>
        let keywords := a.keywords.erase (.str name)
        let (vs, left) ← bindCollecting m scope { a with keywords := keywords } ps
        return (v :: vs, left)
      | none =>
        let v ← defaultArgument m scope name value
        let (vs, left) ← bindCollecting m scope a ps
        return (v :: vs, left)

/-- bind arguments in the order of the parameters of a function without a collecting parameter. A
keyword argument comes before a positional argument. -/
def bindPlain (m : Machine) (scope : Nat) (a : Arguments) :
    List (Param Node) → Exec (List Value × Dict)
  | [] => pure ([], a.keywords)
  | .plain name value :: ps => do
    match a.keywords.get? name with
    | some v =>
      let keywords := a.keywords.erase (.str name)
      let (vs, left) ← bindPlain m scope { a with keywords := keywords } ps
      return (v :: vs, left)
    | none =>
      match a.positional with
      | v :: positional =>
        let (vs, left) ← bindPlain m scope { a with positional := positional } ps
        return (v :: vs, left)
      | [] =>
        let v ← defaultArgument m scope name value
        let (vs, left) ← bindPlain m scope a ps
        return (v :: vs, left)
  | _ :: _ => Exec.fail (.unpackMany 2)

/-- the names of keyword arguments, which must be texts -/
def keywordNames : Nat → List Value → Except Fault (List String)
  | _, [] => .ok []
  | n, .str s :: rest => do return s :: (← keywordNames (n + 1) rest)
  | n, v :: _ => .error (.joinItem n v.kindName)

/-- is a parameter the receiver of a method? -/
def Param.isReceiver {α : Type} : Param α → Bool
  | .receiver => true
  | _ => false

/-- the arguments of a function of a program in the order of its parameters. No keyword argument may
be left. -/
def bindArguments (m : Machine) (scope : Nat) (params : List (Param Node)) (a : Arguments) :
    Exec (List Value) := do
  if params.any Param.isReceiver then Exec.fail (.unpackMany 2)
  let (vs, left) ←
    if params.any Param.isCollector then bindCollecting m scope a params
    else bindPlain m scope a params
  if left.entries.isEmpty then return vs
  else
    let names ← Exec.ofExcept (keywordNames 0 left.keys)
    Exec.fail (.unexpectedKeywords (commaSeparated names))

/-! ## Calls -/

/-- the names of the parts of a registered class -/
def classParts (c : ClassInfo) : List String :=
  if c.parents.isSome then ["fields", "parents", "__methods__"] else ["fields", "__methods__"]

/-- an instance of a class whose name is bound to something that cannot be called: it takes one
argument for each part of the class -/
def constructParts (className : String) (c : ClassInfo) (args : List Value) : Exec Value := do
  let parts := classParts c
  if parts.length ≠ args.length then
    Exec.fail (.fieldCount className parts.length args.length)
  let d := (parts.zip args).foldl (fun (d : Dict) (k, v) => d.insert (.str k) v)
    ⟨[(.str "__type__", .str className)]⟩
  Exec.newDict d

/-- the result of a call of something that cannot be called -/
def callOther (callee : Node) (f : Value) (whole : Node) (args : List Value) : Exec Value := do
  match callee with
  | .var name =>
    match (← get).classes.find? name with
    | some c => constructParts name c args
    | none => Exec.fail (.unknownNode ((← get).nodeText whole))
  | _ => Exec.fail (.notAFunction (← Exec.plain f))

/-- what a call is a call of: a value, or a method of a text or a list that is taken from it for this call. Nothing
else can hold such a method, so it gets no cell. -/
inductive Callee
  | value (f : Value)
  | textMethod (m : TextMethod) (s : String)
  | listMethod (m : ListMethod) (cell : Nat)

/-- the method that an attribute of a text or a list names -/
def methodOf? (object : Value) (attr : String) : Option Callee :=
  match object with
  | .str s => (TextMethod.ofName? attr).map (.textMethod · s)
  | .list cell => (ListMethod.ofName? attr).map (.listMethod · cell)
  | _ => none

def evalCallee (m : Machine) (scope : Nat) (callee : Node) : Exec Callee := do
  match callee with
  | .getAttr object attr =>
    let o ← m.exec object scope
    match methodOf? o attr with
    | some f => return f
    | none => return .value (← Exec.getAttribute o attr)
  | callee => return .value (← m.exec callee scope)

theorem evalCallee_var (m : Machine) (scope : Nat) (name : String) :
    evalCallee m scope (.var name) = do return .value (← m.exec (.var name) scope) := rfl

/-- call something with evaluated arguments -/
def applyCallee (m : Machine) (scope : Nat) (callee whole : Node) (f : Callee) (a : Arguments) :
    Exec Value := do
  match f with
  | .textMethod t s => Exec.callTextMethod t s (a.positional ++ a.keywords.values)
  | .listMethod t cell => Exec.callListMethod t cell (a.positional ++ a.keywords.values)
  | .value (.function cell) =>
    let params := ((← get).function cell).params
    m.call (.function cell) (← bindArguments m scope params a)
  | .value f =>
    if f.isCallable then m.call f (a.positional ++ a.keywords.values)
    else callOther callee f whole a.positional

/-- evaluate the arguments of a call and call something with them -/
def applyCall (m : Machine) (scope : Nat) (callee : Node) (args : List Node)
    (keywords : List (String × Node)) (f : Callee) : Exec Value := do
  let a ← evalArguments m scope ⟨[], .empty⟩ args
  let a ← evalKeywords m scope a keywords
  applyCallee m scope callee (.call callee args keywords) f a

def evalCall (m : Machine) (scope : Nat) (callee : Node) (args : List Node)
    (keywords : List (String × Node)) : Exec Value := do
  applyCall m scope callee args keywords (← evalCallee m scope callee)

end BraceScript
