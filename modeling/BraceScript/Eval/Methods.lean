import BraceScript.Eval.Builtins
import BraceScript.Eval.Sort
import BraceScript.Text.Case

/-!
# Methods of texts, lists and files

* `Exec.callTextMethod`, `Exec.callListMethod`, `Exec.callFileMethod`
-/

namespace BraceScript

namespace Exec

/-- fail unless the number of arguments lies between two bounds; the object itself counts as
one. The name is that of the first argument after it. -/
def checkArity (least most : Nat) (name : String) (args : List Value) : Exec Unit :=
  let given := args.length + 1
  if given < least then fail (.methodMissing name)
  else if most < given then fail (.methodExcess least most given)
  else pure ()

def callTextMethod (m : TextMethod) (s : String) (args : List Value) : Exec Value := do
  match m with
  | .reverse =>
    checkArity 1 1 "" args
    return .str (String.ofList s.toList.reverse)
  | .upper =>
    checkArity 1 1 "" args
    return .str (Text.upper s)
  | .lower =>
    checkArity 1 1 "" args
    return .str (Text.lower s)
  | .strip =>
    checkArity 1 1 "" args
    return .str (Text.strip s)
  | .join =>
    checkArity 2 2 "iterable" args
    let texts ← (← items (args.getD 0 .null)).mapM plain
    return .str (s.intercalate texts)
  | .split =>
    checkArity 1 2 "" args
    match args.getD 0 (.str " ") with
    | .null => newList ((Text.splitBlanks s).map Value.str).toArray
    | .str sep =>
      if sep.isEmpty then fail .emptySeparator
      newList ((Text.splitOn s sep).map Value.str).toArray
    | v => fail (.separatorType v.kindName)

/-- the place of the first item that matches a value -/
def findItem (cell : Nat) (v : Value) : Exec (Option Nat) := do
  let w ← get
  return (w.list cell).toList.findIdx? (w.matching · v)

/-- sort a list, in reverse order if the argument is not zero -/
def sortList (cell : Nat) (reverse : Value) : Exec Value := do
  let n ← integerArgument reverse
  if n < -(Int.pow 2 31) || Int.pow 2 31 ≤ n then fail .wordOverflow
  let w ← get
  let sorted := sortItems w.less (n ≠ 0) (w.list cell).toList
  setList cell sorted.items.toArray
  match sorted.fault with
  | some f => fail f
  | none => return .null

def callListMethod (m : ListMethod) (cell : Nat) (args : List Value) : Exec Value := do
  match m with
  | .append =>
    checkArity 2 2 "i" args
    modifyList cell (·.push (args.getD 0 .null))
    return .null
  | .extend =>
    checkArity 2 2 "i" args
    let more ← items (args.getD 0 .null)
    modifyList cell (· ++ more.toArray)
    return .null
  | .remove =>
    checkArity 2 2 "i" args
    match ← findItem cell (args.getD 0 .null) with
    | some n =>
      modifyList cell (·.eraseIdxIfInBounds n)
      return .null
    | none => fail .cannotRemove
  | .sort =>
    checkArity 1 2 "" args
    sortList cell (args.getD 0 (.bool false))
  | .reverse =>
    checkArity 1 1 "" args
    modifyList cell (·.reverse)
    return .null
  | .pop =>
    checkArity 1 1 "" args
    match ((← get).list cell).back? with
    | some v =>
      modifyList cell (·.pop)
      return v
    | none => fail .emptyPop
  | .index =>
    checkArity 2 2 "i" args
    let v := args.getD 0 .null
    match ← findItem cell v with
    | some n => return .int n
    | none => fail (.notInList (← shown v))

/-- call a method of a file, or of a value that stands in its place -/
def callFileMethod (m : FileMethod) (file : Value) (args : List Value) : Exec Value := do
  if m = .write then checkArity 2 2 "data" args else checkArity 1 1 "" args
  match file with
  | .file cell =>
    match m with
    | .read => readRest cell
    | .write => writeText cell (args.getD 0 .null)
    | .close => closeFile cell
    | .readLines => newList (← readLines cell).toArray
    | .readLine => return .str (← readLine cell)
  | v => fail (.lacksAttribute v.kindName m.name)

end Exec

end BraceScript
