import BraceScript.Store.ClassTable
import BraceScript.Store.Dict
import BraceScript.Store.Disk
import BraceScript.Store.Scope

/-!
# The state of a running program

Cells for everything with an identity, the class table, the scope of global variables, files,
input and output.

* `Closure`, `Callable`, `Handle`   what cells of functions, bound methods and open files hold
* `World`   the whole state
* `World.start`   the state that a program starts from
-/

namespace BraceScript

/-- a function of a program with the scope it was made in -/
structure Closure where
  params : List (Param Node)
  body : List Node
  scope : Nat
deriving Inhabited

inductive TextMethod
  | reverse
  | upper
  | lower
  | join
  | split
  | strip
deriving DecidableEq, Repr

def TextMethod.ofName? (s : String) : Option TextMethod :=
  match s with
  | "reverse" => some reverse
  | "upper" => some upper
  | "lower" => some lower
  | "join" => some join
  | "split" => some split
  | "strip" => some strip
  | _ => none

inductive ListMethod
  | append
  | extend
  | remove
  | sort
  | reverse
  | pop
  | index
deriving DecidableEq, Repr

def ListMethod.ofName? (s : String) : Option ListMethod :=
  match s with
  | "append" => some append
  | "extend" => some extend
  | "remove" => some remove
  | "sort" => some sort
  | "reverse" => some reverse
  | "pop" => some pop
  | "index" => some index
  | _ => none

inductive FileMethod
  | read
  | write
  | close
  | readLines
  | readLine
deriving DecidableEq, Repr

def FileMethod.ofName? (s : String) : Option FileMethod :=
  match s with
  | "read" => some read
  | "write" => some write
  | "close" => some close
  | "readlines" => some readLines
  | "readline" => some readLine
  | _ => none

def FileMethod.name : FileMethod → String
  | read => "read"
  | write => "write"
  | close => "close"
  | readLines => "readlines"
  | readLine => "readline"

/-- what a callable cell does when it is called -/
inductive Callable
  /-- makes an instance of a class; `qualified` maps the names of the classes inside it to their
  qualified names, `included` says that the class came with a module -/
  | constructor (className : String) (fields : List (String × Option Node))
      (qualified : List (String × String)) (included : Bool)
  /-- calls a function with an object in front of the arguments -/
  | method (function : Nat) (self : Value)
  | textMethod (m : TextMethod) (s : String)
  | listMethod (m : ListMethod) (cell : Nat)
  | fileMethod (m : FileMethod) (file : Value)
deriving Inhabited

/-- an open file. What is written waits in `pending` until it is flushed; what was read from the
disk and not yet asked for waits in `unread`. The position counts bytes. -/
structure Handle where
  name : String
  mode : String
  key : String
  readable : Bool
  writable : Bool
  appending : Bool
  closed : Bool
  position : Nat
  unread : List Char
  pending : String
deriving Inhabited

/-- the state of a running program -/
structure World where
  lists : Array (Array Value)
  dicts : Array Dict
  tuples : Array (List Value)
  functions : Array Closure
  callables : Array Callable
  scopes : Array Scope
  handles : Array Handle
  /-- how many results were not a number -/
  nans : Nat
  classes : ClassTable
  /-- the scope of global variables -/
  globals : Nat
  /-- what evaluations hold that have not ended: the scopes of calls and the lists of comprehensions -/
  active : List Cell
  /-- the list of command line arguments -/
  arguments : Nat
  /-- the name that shows in the text of functions -/
  moduleName : String
  disk : Disk
  /-- the lines of input that are left -/
  input : List String
  output : String
deriving Inhabited

namespace World

/-- the variables that every program starts with -/
def initialScope (argumentCount arguments : Nat) : Scope :=
  ⟨Builtin.values.map (fun b => (b.name, Value.builtin b)) ++
    [("True", .bool true), ("False", .bool false), ("None", .null),
      ("__argc", .int argumentCount), ("__argv", .list arguments)], none⟩

def start (arguments : List String) (input : List String) (disk : Disk) (moduleName : String) :
    World where
  lists := #[(arguments.map Value.str).toArray]
  dicts := #[]
  tuples := #[[]]
  functions := #[]
  callables := #[]
  scopes := #[initialScope arguments.length 0]
  handles := #[]
  nans := 0
  classes := .empty
  globals := 0
  active := []
  arguments := 0
  moduleName := moduleName
  disk := disk
  input := input
  output := ""

def list (w : World) (cell : Nat) : Array Value := w.lists.getD cell #[]

def dict (w : World) (cell : Nat) : Dict := w.dicts.getD cell .empty

def tuple (w : World) (cell : Nat) : List Value := w.tuples.getD cell []

/-- a function of a program; a cell that is not there does nothing, in the global scope -/
def function (w : World) (cell : Nat) : Closure := w.functions.getD cell ⟨[], [], w.globals⟩

def callable (w : World) (cell : Nat) : Callable := w.callables.getD cell default

def scope (w : World) (cell : Nat) : Scope := w.scopes.getD cell default

def handle (w : World) (cell : Nat) : Handle := w.handles.getD cell default

/-- more than the number of pairs of containers that two chains can pass through side by side -/
def depth (w : World) : Nat :=
  w.lists.size * w.lists.size + w.dicts.size * w.dicts.size + w.tuples.size * w.tuples.size + 1

/-- start over with a fresh scope of global variables and no classes. The list of command line
arguments, files, input and output stay. -/
def reset (w : World) : World :=
  { w with
    scopes := w.scopes.push (initialScope (w.list w.arguments).size w.arguments)
    globals := w.scopes.size
    classes := .empty
    active := [] }

end World

end BraceScript
