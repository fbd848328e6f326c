import BraceScript.Number.Double

/-!
# Values

What an expression evaluates to. Lists, dictionaries, tuples, functions and files are cells of the
store and have an identity; a value only names the cell.

* `Builtin`   the functions that every program starts with, and those that embedded statements know
* `Value`     a value of the language
* `Value.typeName`, `Value.kindName`   the name of its type, short and as messages give it
* `Cell`      a cell of the store
-/

namespace BraceScript

/-- a function or type of the host of the language -/
inductive Host
  /-- the function that prints -/
  | print
  | function (name : String)
  | type (name : String)
deriving DecidableEq, Repr

def Host.name : Host → String
  | print => "print"
  | function name => name
  | type name => name

/-- the name of the type of a function or type of the host -/
def Host.typeName : Host → String
  | print => "function"
  | function _ => "builtin_function_or_method"
  | type _ => "type"

/-- the functions that are not made by a program -/
inductive Builtin
  | print
  | printf
  | range
  | input
  | type
  | int
  | float
  | str
  | list
  | dict
  | length
  | openFile
  | map
  | filter
  | reduce
  | chr
  | all
  | any
  | pow
  | ord
  | load
  /-- a function that only embedded statements can name -/
  | host (h : Host)
deriving DecidableEq, Repr

/-- the name under which a builtin function is found -/
def Builtin.name : Builtin → String
  | print => "print"
  | printf => "printf"
  | range => "range"
  | input => "input"
  | type => "type"
  | int => "int"
  | float => "float"
  | str => "str"
  | list => "list"
  | dict => "dict"
  | length => "length"
  | openFile => "open"
  | map => "map"
  | filter => "filter"
  | reduce => "reduce"
  | chr => "chr"
  | all => "all"
  | any => "any"
  | pow => "pow"
  | ord => "ord"
  | load => "include"
  | host h => h.name

/-- the functions that every program starts with -/
def Builtin.values : List Builtin :=
  [.print, .printf, .range, .input, .type, .int, .float, .str, .list, .dict, .length, .openFile, .map,
    .filter, .reduce, .chr, .all, .any, .pow, .ord, .load]

/-- a value of the language -/
inductive Value
  /-- the absent value -/
  | null
  | bool (b : Bool)
  | int (n : Int)
  /-- a double that is a number -/
  | float (x : Double)
  /-- a result that is not a number; each has an identity of its own -/
  | nan (id : Nat)
  | str (s : String)
  | list (cell : Nat)
  | dict (cell : Nat)
  | tuple (cell : Nat)
  /-- a function defined by a program -/
  | function (cell : Nat)
  /-- a constructor of a class or a method bound to its object -/
  | callable (cell : Nat)
  | builtin (b : Builtin)
  | file (cell : Nat)
deriving DecidableEq, Repr, Inhabited

namespace Value

/-- the short name of the type of a value -/
def typeName : Value → String
  | null => "NoneType"
  | bool _ => "bool"
  | int _ => "int"
  | float _ => "float"
  | nan _ => "float"
  | str _ => "str"
  | list _ => "list"
  | dict _ => "dict"
  | tuple _ => "tuple"
  | function _ => "Function"
  | callable _ => "function"
  | builtin .load => "method"
  | builtin (.host h) => h.typeName
  | builtin _ => "function"
  | file _ => "TextIOWrapper"

/-- the name of the type of a value in most messages -/
def kindName : Value → String
  | file _ => "_io.TextIOWrapper"
  | v => v.typeName

/-- can the value be called? -/
def isCallable : Value → Bool
  | function _ => true
  | callable _ => true
  | builtin _ => true
  | _ => false

end Value

/-! ## Cells -/

/-- a cell of the store -/
inductive Cell
  | list (n : Nat)
  | dict (n : Nat)
  | tuple (n : Nat)
  | function (n : Nat)
  | callable (n : Nat)
  | scope (n : Nat)
  | file (n : Nat)
deriving DecidableEq, Repr

def Value.cell? : Value → Option Cell
  | .list n => some (.list n)
  | .dict n => some (.dict n)
  | .tuple n => some (.tuple n)
  | .function n => some (.function n)
  | .callable n => some (.callable n)
  | .file n => some (.file n)
  | _ => none

end BraceScript
