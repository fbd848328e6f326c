import BraceScript.Value

/-!
# Syntax trees

One type of tree for statements and expressions, since both may stand in a block.

* `Numeral`, `ArithOp`, `CompareOp`, `AugOp`   the leaves
* `Param`, `Method`, `ClassDecl`   the parts of definitions
* `Node`   a syntax tree
-/

namespace BraceScript

inductive Numeral
  | int (n : Int)
  | real (x : Double)
deriving DecidableEq, Repr

def Numeral.neg : Numeral → Numeral
  | int n => int (-n)
  | real x => real x.neg

inductive ArithOp
  | add
  | sub
  | mul
  | div
  | mod
deriving DecidableEq, Repr

def ArithOp.text : ArithOp → String
  | add => "+"
  | sub => "-"
  | mul => "*"
  | div => "/"
  | mod => "%"

/-- the arithmetic operator with a given sign -/
def ArithOp.ofText? (s : String) : Option ArithOp :=
  if s = "+" then some add
  else if s = "-" then some sub
  else if s = "*" then some mul
  else if s = "/" then some div
  else if s = "%" then some mod
  else none

/-- the comparison operators; `other` is for signs that no source text gives -/
inductive CompareOp
  | eq
  | ne
  | lt
  | gt
  | le
  | ge
  | other (sign : String)
deriving DecidableEq, Repr

def CompareOp.text : CompareOp → String
  | eq => "=="
  | ne => "!="
  | lt => "<"
  | gt => ">"
  | le => "<="
  | ge => ">="
  | other s => s

/-- the comparison operator with a given sign -/
def CompareOp.ofText (s : String) : CompareOp :=
  if s = "==" then eq
  else if s = "!=" then ne
  else if s = "<" then lt
  else if s = ">" then gt
  else if s = "<=" then le
  else if s = ">=" then ge
  else other s

/-- the operator of an assignment that updates its target -/
inductive AugOp
  | arith (op : ArithOp)
  | other (sign : String)
deriving DecidableEq, Repr

def AugOp.text : AugOp → String
  | arith op => op.text ++ "="
  | other s => s

/-- the updating assignment with a given sign -/
def AugOp.ofText (s : String) : AugOp :=
  if s = "+=" then arith .add
  else if s = "-=" then arith .sub
  else if s = "*=" then arith .mul
  else if s = "/=" then arith .div
  else if s = "%=" then arith .mod
  else other s

/-- a parameter of a function, with defaults of type `α` -/
inductive Param (α : Type)
  /-- the object that a method is called on -/
  | receiver
  | plain (name : String) (default? : Option α)
  /-- collects the remaining positional arguments -/
  | rest (name : String)
  /-- collects the remaining keyword arguments -/
  | keywords (name : String)

/-- a named function with its parameters and body -/
structure Method (α : Type) where
  name : String
  params : List (Param α)
  body : List α

/-- a class with its parents, its fields and their defaults, its methods and the classes in it -/
inductive ClassDecl (α : Type)
  | mk (name : String) (parents : List String) (fields : List (String × Option α))
      (methods : List (Method α)) (nested : List (ClassDecl α))

/-- a syntax tree -/
inductive Node
  | num (n : Numeral)
  | str (s : String)
  | var (name : String)
  | list (items : List Node)
  | listComp (body : Node) (var : String) (iterable step : Node) (conditions : List Node)
  | dict (items : List (Node × Node))
  | dictComp (key value : Node) (var : String) (iterable : Node) (condition : Option Node)
  | assign (name : String) (value : Node)
  | augAssign (name : String) (op : AugOp) (value : Node)
  | augAttr (object : Node) (attr : String) (op : AugOp) (value : Node)
  | augIndex (object index : Node) (op : AugOp) (value : Node)
  | setIndex (object index value : Node)
  | setAttr (object : Node) (attr : String) (value : Node)
  | binop (op : ArithOp) (left right : Node)
  | compare (op : CompareOp) (left right : Node)
  /-- membership -/
  | inside (left right : Node)
  /-- membership denied -/
  | outside (left right : Node)
  /-- a membership test without a left side -/
  | danglingOutside (right : Node)
  | and (left right : Node)
  | or (left right : Node)
  | not (operand : Node)
  | neg (operand : Node)
  | ternary (condition yes no : Node)
  | call (callee : Node) (args : List Node) (keywords : List (String × Node))
  | getAttr (object : Node) (attr : String)
  /-- an element of a name, of its attributes or elements -/
  | getItem (object index : Node)
  /-- an element of any other expression -/
  | index (object index : Node)
  | slice (object : Node) (start stop step : Option Node)
  | block (body : List Node)
  /-- branches with their conditions; the last may have none -/
  | ifChain (branches : List (Option Node × List Node))
  | forEach (var : String) (iterable : Node) (step : Option Node) (body : List Node)
  | whileLoop (condition : Node) (body : List Node)
  | breakLoop
  | continueLoop
  | ret (value : Option Node)
  | global (name : String)
  | tryCatch (name : Option String) (body handler : List Node)
  | throw (value : Node)
  | classDef (decl : ClassDecl Node)
  | define (method : Method Node)
  | lambda (params : List (Param Node)) (body : List Node)
  /-- cases with their patterns; a case without patterns always applies -/
  | matchCase (subject : Node) (cases : List (List Node × List Node))
  /-- statements of the embedded language -/
  | embedded (code : String)
  | includeFile (path : String)
  | unpack (operand : Node)
  | keywordUnpack (operand : Node)
  /-- a value that is read as a tree when it is executed -/
  | quoted (value : Value)
deriving Inhabited

end BraceScript
