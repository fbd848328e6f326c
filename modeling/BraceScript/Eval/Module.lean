import BraceScript.Eval.Class
import BraceScript.Parse.Statement
import BraceScript.Token.Lexer

/-!
# Files of program text

A program can include another one in two ways: as a statement, which executes the file in place,
and as a function, which gives a dictionary of the classes and functions that the file defines.

* `parseSource`     the statements of a program text
* `includeInPlace`  executes a file in a scope
* `includeModule`   the definitions of a file as a dictionary
-/

namespace BraceScript

def parseSource (source : String) : Except ParseError (List Node) := parse (tokenize source)

/-- the statements of a program text, errors as faults -/
def parseProgram (source : String) : Exec (List Node) :=
  match parseSource source with
  | .ok body => pure body
  | .error e => Exec.fail (.parse e)

/-- read a file; the fault is for a file that is not there -/
def readSource (path : String) (missing : Fault) : Exec String := do
  match (← get).disk.toRead path with
  | .error (.path .missing _) => Exec.fail missing
  | .error f => Exec.fail f
  | .ok _ => Exec.readWhole path

/-- the directory of the program, which the second command line argument names -/
def programDirectory : Exec String := do
  let w ← get
  let second : Option Value := (w.list w.arguments)[1]?
  match second with
  | some (.str path) => return Path.directory path
  | some v => Exec.fail (.pathType v.typeName)
  | none => Exec.fail (.indexRange "list")

/-- execute a file in a scope. It is looked up beside the program, and then as it is named. -/
def includeInPlace (m : Machine) (name : String) (scope : Nat) : Exec Value := do
  let beside := Path.normal (Path.join (← programDirectory) name)
  let path := if (← get).disk.pathExists beside then beside else Path.normal name
  let source ← readSource path (.includeMissing name (some path))
  let body ← parseProgram source
  let _ ← runBlock m scope .null body
  return .null

def libraryDirectories : List String := ["tests", "lib", "examples"]

/-- the path of a file to include; a name that begins with `@` is looked up in the libraries -/
def modulePath (name : String) : Exec String := do
  let name := if name.endsWith ".fn" then name else name ++ ".fn"
  match name.toList with
  | '@' :: rest =>
    let rest := String.ofList rest
    let paths := libraryDirectories.map fun dir => Path.join dir rest
    match paths.find? ((← get).disk.pathIsFile ·) with
    | some path => return path
    | none => Exec.fail (.libraryMissing rest)
  | _ => return name

/-- the classes of a file and the entries for their constructors -/
def moduleClasses (globals : Nat) (t : ClassTable) (d : Dict) :
    List Node → Exec (ClassTable × Dict)
  | [] => pure (t, d)
  | .classDef c :: rest => do
    let t ← registerClass globals none t c
    let made ← Exec.newCallable (constructorOf true c)
    moduleClasses globals t (d.insert (.str c.name) made) rest
  | _ :: rest => moduleClasses globals t d rest

/-- the functions of a file: those with a dotted name go to a class of the file, if it has one -/
def moduleFunctions (globals : Nat) (t : ClassTable) (d : Dict) :
    List Node → Exec (ClassTable × Dict)
  | [] => pure (t, d)
  | .define f :: rest => do
    let cell ← Exec.newFunction ⟨f.params, f.body, globals⟩
    match splitMethodName f.name with
    | some (className, name) =>
      let t := if (t.find? className).isSome then t.addMethod className name cell else t
      moduleFunctions globals t d rest
    | none => moduleFunctions globals t (d.insert (.str f.name) (.function cell)) rest
  | _ :: rest => moduleFunctions globals t d rest

/-- the classes and functions of a file as a dictionary -/
def includeModule (args : List Value) : Exec Value := do
  match args with
  | [] => Exec.fail (.indexRange "list")
  | .str name :: _ =>
    let path ← modulePath name
    let source ← readSource path (.includeMissing path none)
    let body ← parseProgram source
    let globals := (← get).globals
    let (t, d) ← moduleClasses globals .empty .empty body
    let (t, d) ← moduleFunctions globals t d body
    modify fun w => { w with classes := w.classes.update t }
    Exec.newDict d
  | v :: _ => Exec.fail (.lacksAttribute v.kindName "endswith")

end BraceScript
