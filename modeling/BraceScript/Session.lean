import BraceScript.Eval.Exec

/-!
# Running programs

A program runs in a state and leaves a state; the next one can go on from there.

* `World.run`        runs a program text
* `World.evaluate`   evaluates a text that may be one expression
* `World.runFile`    runs the file that the command line names
* `needsMore`        is a text the beginning of a longer one?
* `World.changedGlobals`, `World.listedClasses`, `World.changedFiles`   what a program left behind
-/

namespace BraceScript

/-- the fuel of a run: more than any machine has time for -/
def runFuel : Nat := Nat.pow 2 62

/-! ## Programs -/

def Exec.runSource (fuel : Nat) (source : String) : Exec Value := do
  let body ← parseProgram source
  runBlock (machine fuel) (← get).globals .null body

/-- is a statement evaluated as an expression when it stands alone? -/
def isLoneExpression : Node → Bool
  | .binop .. => true
  | .num _ => true
  | .str _ => true
  | .var _ => true
  | .list _ => true
  | .dict _ => true
  | _ => false

/-- evaluate a text in the global scope: an expression that stands alone is no block -/
def Exec.evaluateSource (fuel : Nat) (source : String) : Exec Value := do
  let body ← parseProgram source
  let globals := (← get).globals
  match body with
  | [e] =>
    if isLoneExpression e then (machine fuel).exec e globals
    else runBlock (machine fuel) globals .null body
  | body => runBlock (machine fuel) globals .null body

/-- run the file that the second command line argument names -/
def Exec.runNamedFile (fuel : Nat) : Exec Value := do
  let w ← get
  let second : Option Value := (w.list w.arguments)[1]?
  match second with
  | some (.str path) => runSource fuel (← readWhole path)
  | some v => fail (.badPath v.typeName)
  | none => fail (.indexRange "list")

namespace World

/-- what an evaluation gives, and the state that it leaves. No call is active at the start. -/
def perform (w : World) (e : Exec Value) : Except Signal Value × World :=
  match e.run { w with active := [] } with
  | .ok v w => (.ok v, w)
  | .error s w => (.error s, w)

/-- run a program text -/
def run (w : World) (source : String) : Except Signal Value × World :=
  w.perform (Exec.runSource runFuel source)

/-- evaluate a text that may be one expression -/
def evaluate (w : World) (source : String) : Except Signal Value × World :=
  w.perform (Exec.evaluateSource runFuel source)

/-- run the file that the command line names -/
def runFile (w : World) : Except Signal Value × World :=
  w.perform (Exec.runNamedFile runFuel)

end World

/-! ## Unfinished texts -/

/-- are there more opening than closing brackets? -/
def isOpen (left right : Char) (s : List Char) : Bool := s.count right < s.count left

/-- is a text the beginning of a longer one? Brackets and quotes are counted wherever they stand. -/
def needsMore (source : String) : Bool :=
  let s := source.toList
  isOpen '\x7b' '\x7d' s || isOpen '(' ')' s || isOpen '[' ']' s ||
    s.count '"' % 2 = 1 || s.count '\'' % 2 = 1

/-! ## What a program leaves behind -/

def byName {α : Type} (pairs : List (String × α)) : List (String × α) :=
  pairs.mergeSort fun a b => a.1 ≤ b.1

namespace World

/-- the global variables that are not what they were, ordered by name; the message of a handler
without a name comes first and has none -/
def changedGlobals (before w : World) : List (Option String × Value) :=
  let old := before.scope before.globals
  let new := w.scope w.globals
  let changed := new.vars.filter fun (name, v) => old.find? name ≠ some v
  (new.unnamed.toList.map fun v => (none, v)) ++
    (byName changed).map fun (name, v) => (some name, v)

/-- the classes, ordered by name -/
def listedClasses (w : World) : List (String × ClassInfo) := byName w.classes.classes

/-- the files that are new or have another text, ordered by path; files that were left open count
with all that was written to them -/
def changedFiles (before w : World) : List (String × String) :=
  byName (w.finish.disk.files.filter fun (key, text) => before.disk.read? key ≠ some text)

end World

end BraceScript
