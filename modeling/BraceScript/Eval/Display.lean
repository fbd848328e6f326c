import BraceScript.Eval.Basic
import BraceScript.Node.Form

/-!
# The text of values

Every value has a text that shows its structure; a text itself is shown without quotes when it
stands alone. A container inside itself is shown by dots. The text of a function has its address, which differs from
run to run; every address is written as zero here, so that functions of one name have one text.

* `World.shown`   the text of a value inside another one
* `World.plain`   the text of a value alone
* `World.message` the text of a fault
-/

namespace BraceScript

structure Shown where
  lists : List Nat
  dicts : List Nat
  tuples : List Nat

/-- the text of an integer, which must not have too many digits -/
def intText (n : Int) : Except Fault String :=
  if n.natAbs < Nat.pow 10 maxDigits then .ok (toString n) else .error .tooManyDigits

/-- text that shows a function -/
def functionText (name : String) : String := "<function " ++ name ++ " at 0x0>"

namespace World

/-- the text of a constructor or a bound method -/
def callableText : Callable → String
  | .constructor _ _ _ false => functionText "Interpreter.execute.<locals>.conclassor"
  | .constructor _ _ _ true =>
    functionText "Interpreter.include_module.<locals>.mk_constructor.<locals>.constructor"
  | .method .. => functionText "Interpreter.execute.<locals>.bound_method"
  | .textMethod .. => functionText "Interpreter.execute.<locals>.bound_str_method"
  | .listMethod .. => functionText "Interpreter.execute.<locals>.bound_str_method"
  | .fileMethod .. => functionText "Interpreter.execute.<locals>.<lambda>"

/-- the text of a function or type of the host -/
def hostText : Host → String
  | .print => functionText "Interpreter.execute.<locals>.<lambda>"
  | .function name => "<built-in function " ++ name ++ ">"
  | .type name => "<class '" ++ name ++ "'>"

def builtinText (w : World) : Builtin → String
  | .load =>
    "<bound method Interpreter.include_module of <" ++ w.moduleName ++ ".Interpreter object at 0x0>>"
  | .host h => hostText h
  | _ => functionText "Interpreter.__init__.<locals>.<lambda>"

def fileText (h : Handle) : String :=
  "<_io.TextIOWrapper name=" ++ Text.quoted h.name ++ " mode=" ++ Text.quoted h.mode ++
    " encoding='utf-8'>"

/-- the text of a value, with the containers that are being shown -/
def shownWith (w : World) : Nat → Shown → Value → Except Fault String
  | 0, _, _ => .ok "..."
  | fuel + 1, inside, v =>
    match v with
    | .null => .ok "None"
    | .bool b => .ok (if b then "True" else "False")
    | .int n => intText n
    | .float x => .ok x.text
    | .nan _ => .ok "nan"
    | .str s => .ok (Text.quoted s)
    | .list cell =>
      if inside.lists.contains cell then .ok "[...]"
      else do
        let inside := { inside with lists := cell :: inside.lists }
        let items ← (w.list cell).toList.mapM (shownWith w fuel inside)
        return "[" ++ commaSeparated items ++ "]"
    | .dict cell =>
      if inside.dicts.contains cell then .ok "\x7b...\x7d"
      else do
        let inside := { inside with dicts := cell :: inside.dicts }
        let items ← (w.dict cell).entries.mapM fun (k, v) => do
          let k ← shownWith w fuel inside k
          let v ← shownWith w fuel inside v
          return k ++ ": " ++ v
        return "\x7b" ++ commaSeparated items ++ "\x7d"
    | .tuple cell =>
      if inside.tuples.contains cell then .ok "(...)"
      else do
        let inside := { inside with tuples := cell :: inside.tuples }
        let items ← (w.tuple cell).mapM (shownWith w fuel inside)
        return tupleText items
    | .function _ => .ok ("<" ++ w.moduleName ++ ".Function object at 0x0>")
    | .callable cell => .ok (callableText (w.callable cell))
    | .builtin b => .ok (w.builtinText b)
    | .file cell => .ok (fileText (w.handle cell))

/-- has a value a text? Only integers of too many digits have none. -/
def showableWith (w : World) : Nat → Shown → Value → Bool
  | 0, _, _ => true
  | fuel + 1, inside, v =>
    match v with
    | .int n => n.natAbs < Nat.pow 10 maxDigits
    | .list cell =>
      inside.lists.contains cell ||
        (w.list cell).all (showableWith w fuel { inside with lists := cell :: inside.lists })
    | .dict cell =>
      inside.dicts.contains cell ||
        (w.dict cell).entries.all fun (k, v) =>
          let inside := { inside with dicts := cell :: inside.dicts }
          showableWith w fuel inside k && showableWith w fuel inside v
    | .tuple cell =>
      inside.tuples.contains cell ||
        (w.tuple cell).all (showableWith w fuel { inside with tuples := cell :: inside.tuples })
    | _ => true

def showable (w : World) (v : Value) : Bool := w.showableWith w.depth ⟨[], [], []⟩ v

/-- the text of a value inside another one -/
def shown (w : World) (v : Value) : Except Fault String := shownWith w w.depth ⟨[], [], []⟩ v

/-- the text of a value alone -/
def plain (w : World) : Value → Except Fault String
  | .str s => .ok s
  | v => w.shown v

def nodeText (w : World) (n : Node) : String :=
  n.form.text fun v => match w.shown v with
    | .ok s => s
    | .error _ => "..."

/-- the name of the type of a value with its module -/
def className (w : World) : Value → String
  | .function _ => "<class '" ++ w.moduleName ++ ".Function'>"
  | v => "<class '" ++ v.kindName ++ "'>"

/-- the text of a fault -/
def message (w : World) (f : Fault) : Except Fault String :=
  match f with
  | .thrown v => w.plain v
  | .missingKey v => w.shown v
  | f => .ok (f.message?.getD "")

def signalText (w : World) : Signal → Except Fault String
  | .fault f => w.message f
  | _ => .ok ""

end World

namespace Exec

/-- the text of a value inside another one -/
def shown (v : Value) : Exec String := query (·.shown v)

/-- the text of a value alone -/
def plain (v : Value) : Exec String := query (·.plain v)

end Exec

end BraceScript
