import BraceScript.Eval.Machine

/-!
# Values read as trees

A value in the place of a tree is read as one: its first part names the kind, and the parts after it
are read in the same way when they are executed. A collection of one item stands for the item.

* `readTree`     the tree that a value is read as
* `evalQuoted`   executes a value as a tree
-/

namespace BraceScript

/-- the parts of a value that is read as a tree, which must have a given number -/
def treeParts (v : Value) (count : Nat) : Exec (List Value) := do
  let parts ← Exec.items v
  if parts.length < count then Exec.fail (.unpackFew count parts.length)
  else if count < parts.length then Exec.fail (.unpackMany count)
  else return parts

/-- a part of a value that is read as a tree -/
def treePart (v : Value) (i : Nat) : Exec Value := Exec.element v (.int i)

def treeList (v : Value) : Exec (List Node) := do
  if ← Exec.truth v then return (← Exec.items v).map .quoted else return []

def treeOption (v : Value) : Exec (Option Node) := do
  if ← Exec.truth v then return some (.quoted v) else return none

def treeName (whole v : Value) : Exec String := do
  match v with
  | .str s => return s
  | _ => Exec.fail (.unknownNode (← Exec.plain whole))

/-- the trees in a part that must be a collection -/
def treeBody (v : Value) : Exec (List Node) := do return (← Exec.items v).map .quoted

def treePairs (v : Value) : Exec (List (Value × Value)) := do
  (← Exec.items v).mapM fun p => do
    match ← treeParts p 2 with
    | [a, b] => return (a, b)
    | _ => return (.null, .null)

def absentTree : Value → Option Node
  | .null => none
  | v => some (.quoted v)

/-- the parameters in a part: names alone are receivers -/
def treeParams (whole v : Value) : Exec (List (Param Node)) := do
  (← Exec.items v).mapM fun p => do
    match p with
    | .str _ => return .receiver
    | p =>
      match ← treeParts p 2 with
      | [name, value] =>
        let name ← treeName whole name
        match name.toList with
        | '*' :: '*' :: rest => return .keywords (String.ofList rest)
        | '*' :: rest => return .rest (String.ofList rest)
        | _ => return .plain name (absentTree value)
      | _ => return .receiver

/-- the branches in a part: a tag, a condition and a body each -/
def treeBranches (v : Value) : Exec (List (Option Node × List Node)) := do
  let branches ← (← Exec.items v).mapM fun b => do
    match ← treeParts b 3 with
    | [.str "else", _, body] => return [(none, ← treeBody body)]
    | [.str "if", c, body] => return [(some (.quoted c), ← treeBody body)]
    | [.str "elif", c, body] => return [(some (.quoted c), ← treeBody body)]
    | _ => return []
  return branches.flatten

/-- the cases in a part: patterns and a body each -/
def treeCases (v : Value) : Exec (List (List Node × List Node)) := do
  let cases ← (← treePairs v).mapM fun (patterns, body) => do
    let patterns ← Exec.items patterns
    let body ← treeBody body
    if patterns = [.str "else"] then return [([], body)]
    else if patterns.isEmpty then return []
    else return [(patterns.map .quoted, body)]
  return cases.flatten

/-- the statement that a value of the given kind is read as -/
def readStatementTree (v : Value) (kind : String) : Exec Node := do
  match kind, ← Exec.items v with
  | "block", _ => return .block (← treeBody (← treePart v 1))
  | "break", _ => return .breakLoop
  | "continue", _ => return .continueLoop
  | "return", _ => return .ret (← treeOption (← treePart v 1))
  | "global", _ => return .global (← treeName v (← treePart v 1))
  | "if_chain", _ => return .ifChain (← treeBranches (← treePart v 1))
  | "while", [_, c, body] => return .whileLoop (.quoted c) (← treeBody body)
  | "for", [_, var, iterable, _, body] =>
    return .forEach (← treeName v var) (.quoted iterable) none (← treeBody body)
  | "throw", [_, e] => return .throw (.quoted e)
  | "include", [_, name] => return .includeFile (← treeName v name)
  | "ffi", [_, code] => return .embedded (← treeName v code)
  | "match", [_, subject, cases] => return .matchCase (.quoted subject) (← treeCases cases)
  | "try", [_, name, body, handler] =>
    let name ← match name with
      | .null => pure none
      | name => some <$> treeName v name
    let body ← treeBody body
    return .tryCatch name body (← treeBody handler)
  | "def", [_, name, params, body] =>
    let name ← treeName v name
    let params ← treeParams v params
    return .define ⟨name, params, ← treeBody body⟩
  | _, _ => Exec.fail (.unknownNode (← Exec.plain v))

/-- how many parts a value of the given kind must have, if it is taken apart -/
def treeSize? (kind : String) : Option Nat :=
  match kind with
  | "throw" | "include" | "ffi" => some 2
  | "while" | "match" | "index" | "getitem" | "assign" | "lambda" => some 3
  | "try" | "def" | "ternary" | "binop" | "compare" | "setindex" | "setattr" | "augassign" => some 4
  | "for" | "slice" | "augassignattr" | "augassignindex" => some 5
  | "dictcomp" => some 6
  | _ => none

/-- the operator of a value that is read as an arithmetic operation -/
def treeOperator (op : Value) : Exec ArithOp := do
  match op with
  | .str sign =>
    match ArithOp.ofText? sign with
    | some op => return op
    | none => Exec.fail (.missingKey op)
  | op =>
    Exec.checkKey op
    Exec.fail (.missingKey op)

/-- the named arguments of a value that is read as a call, if it has any -/
def treeKeywords (whole : Value) : List Value → Exec (List (String × Node))
  | .dict cell :: _ => do
    ((← get).dict cell).entries.mapM fun (k, e) => do return (← treeName whole k, .quoted e)
  | v :: _ => Exec.fail (.lacksAttribute v.kindName "items")
  | [] => pure []

/-- the update that a value of the given kind is read as -/
def readUpdateTree (v : Value) (kind : String) : Exec Node := do
  match kind, ← Exec.items v with
  | "augassign", [_, name, op, e] =>
    let name ← treeName v name
    return .augAssign name (AugOp.ofText (← treeName v op)) (.quoted e)
  | "augassignattr", [_, object, attr, op, e] =>
    let attr ← treeName v attr
    return .augAttr (.quoted object) attr (AugOp.ofText (← treeName v op)) (.quoted e)
  | "augassignindex", [_, object, index, op, e] =>
    return .augIndex (.quoted object) (.quoted index) (AugOp.ofText (← treeName v op)) (.quoted e)
  | _, _ => readStatementTree v kind

/-- the collection or function that a value of the given kind is read as -/
def readCollectionTree (v : Value) (kind : String) : Exec Node := do
  match kind, ← Exec.items v with
  | "list", _ => return .list (← treeList (← treePart v 1))
  | "dict", _ =>
    let entries ← treePart v 1
    let pairs ← if ← Exec.truth entries then treePairs entries else pure []
    return .dict (pairs.map fun (k, e) => (.quoted k, .quoted e))
  | "listcomp", _ :: rest =>
    match rest with
    | [body, var, iterable, step, condition] =>
      return .listComp (.quoted body) (← treeName v var) (.quoted iterable) (.quoted step)
        (absentTree condition).toList
    | rest =>
      if rest.length < 5 then Exec.fail (.unpackFew 5 rest.length) else Exec.fail (.unpackMany 5)
  | "dictcomp", [_, key, value, var, iterable, condition] =>
    return .dictComp (.quoted key) (.quoted value) (← treeName v var) (.quoted iterable)
      (absentTree condition)
  | "lambda", [_, params, body] =>
    let params ← treeParams v params
    return .lambda params (← treeBody body)
  | _, _ => readUpdateTree v kind

/-- the tree that a value of the given kind and parts is read as; `none` when it is its own second part -/
def readParts (v : Value) (kind : String) (parts : List Value) : Exec (Option Node) := do
  let second := treePart v 1
  let third := treePart v 2
  match kind, parts with
  | "num", _ => return none
  | "str", _ => return none
  | "var", _ =>
    match ← second with
    | .str name => return some (.var name)
    | other =>
      Exec.checkKey other
      Exec.fail (.undefined (← Exec.plain other))
  | "in", _ => return some (.inside (.quoted (← second)) (.quoted (← third)))
  | "nin", _ => return some (.outside (.quoted (← second)) (.quoted (← third)))
  | "and", _ => return some (.and (.quoted (← second)) (.quoted (← third)))
  | "or", _ => return some (.or (.quoted (← second)) (.quoted (← third)))
  | "not", _ => return some (.not (.quoted (← second)))
  | "ternary", [_, c, y, n] => return some (.ternary (.quoted c) (.quoted y) (.quoted n))
  | "binop", [_, op, a, b] => return some (.binop (← treeOperator op) (.quoted a) (.quoted b))
  | "compare", [_, op, a, b] =>
    return some (.compare (CompareOp.ofText (← treeName v op)) (.quoted a) (.quoted b))
  | "assign", [_, name, e] => return some (.assign (← treeName v name) (.quoted e))
  | "setindex", [_, a, b, c] => return some (.setIndex (.quoted a) (.quoted b) (.quoted c))
  | "setattr", [_, a, name, b] =>
    return some (.setAttr (.quoted a) (← treeName v name) (.quoted b))
  | "getattr", _ =>
    let object ← second
    return some (.getAttr (.quoted object) (← treeName v (← third)))
  | "index", [_, a, b] => return some (.index (.quoted a) (.quoted b))
  | "getitem", [_, a, b] => return some (.getItem (.quoted a) (.quoted b))
  | "slice", [_, a, b, c, d] =>
    let start ← treeOption b
    let stop ← treeOption c
    return some (.slice (.quoted a) start stop (← treeOption d))
  | "call", parts =>
    let callee ← second
    let args ← treeBody (← third)
    return some (.call (.quoted callee) args (← treeKeywords v (parts.drop 3)))
  | "kwunpack", _ => return some (.keywordUnpack (.quoted (← second)))
  | "unpack", _ => return some (.unpack (.quoted (← second)))
  | _, _ => return some (← readCollectionTree v kind)

/-- the tree that a value of the given kind is read as; `none` when it is its own second part -/
def readTree (v : Value) (kind : String) : Exec (Option Node) := do
  if let some count := treeSize? kind then let _ ← treeParts v count
  readParts v kind (← Exec.items v)

/-- is a value the name of a statement without parts? -/
def isBareStatement (v : Value) : Bool := v = .str "break" || v = .str "continue"

/-- the value that is read as a tree: a collection of one item stands for the item -/
def unwrapTree (v : Value) : Exec Value := do
  if (← Exec.length v) = 1 then
    let first ← treePart v 0
    if isBareStatement first then return v else return first
  else return v

/-- execute a value as a tree: its first part is the name of its kind -/
def evalQuoted (run : Node → Exec Value) (v : Value) : Exec Value := do
  let v ← unwrapTree v
  match ← treePart v 0 with
  | .str kind =>
    match ← readTree v kind with
    | some node => run node
    | none => treePart v 1
  | _ => Exec.fail (.unknownNode (← Exec.plain v))

end BraceScript
