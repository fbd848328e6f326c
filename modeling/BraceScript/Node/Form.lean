import BraceScript.Node.Basic
import BraceScript.Number.Decimal
import BraceScript.Text.Quoted

/-!
# The display of syntax trees

A tree is shown as nested tuples that begin with the name of their kind. A form is such a display
before it is written out.

* `Form`        nested tuples, lists and dictionaries of numbers and texts
* `Node.form`   the form of a syntax tree
* `Form.text`   a form written out
-/

namespace BraceScript

/-- nested tuples, lists and dictionaries of numbers and texts -/
inductive Form
  | null
  | int (n : Int)
  | real (x : Double)
  | str (s : String)
  | tuple (items : List Form)
  | list (items : List Form)
  | dict (items : List (String × Form))
  /-- a value of the store, shown by a given text -/
  | value (v : Value)
deriving Inhabited

/-- the form of a number -/
def Numeral.form : Numeral → Form
  | int n => .int n
  | real x => .real x

/-- a tuple that begins with the name of a kind -/
def Form.kind (name : String) (items : List Form) : Form := .tuple (.str name :: items)

mutual

def Node.form : Node → Form
  | .num n => .kind "num" [n.form]
  | .str s => .kind "str" [.str s]
  | .var name => .kind "var" [.str name]
  | .list items => .kind "list" [.list (forms items)]
  | .listComp body var iterable step conditions =>
    .kind "listcomp" [body.form, .str var, iterable.form, step.form, conditionForm conditions]
  | .dict items => .kind "dict" [.list (pairForms items)]
  | .dictComp key value var iterable condition =>
    .kind "dictcomp" [key.form, value.form, .str var, iterable.form, optionForm condition]
  | .assign name value => .kind "assign" [.str name, value.form]
  | .augAssign name op value => .kind "augassign" [.str name, .str op.text, value.form]
  | .augAttr object attr op value =>
    .kind "augassignattr" [object.form, .str attr, .str op.text, value.form]
  | .augIndex object index op value =>
    .kind "augassignindex" [object.form, index.form, .str op.text, value.form]
  | .setIndex object index value => .kind "setindex" [object.form, index.form, value.form]
  | .setAttr object attr value => .kind "setattr" [object.form, .str attr, value.form]
  | .binop op left right => .kind "binop" [.str op.text, left.form, right.form]
  | .compare op left right => .kind "compare" [.str op.text, left.form, right.form]
  | .inside left right => .kind "in" [left.form, right.form]
  | .outside left right => .kind "nin" [left.form, right.form]
  | .danglingOutside right => .kind "notin" [.null, right.form]
  | .and left right => .kind "and" [left.form, right.form]
  | .or left right => .kind "or" [left.form, right.form]
  | .not operand => .kind "not" [operand.form]
  | .neg operand => .kind "neg" [operand.form]
  | .ternary condition yes no => .kind "ternary" [condition.form, yes.form, no.form]
  | .call callee args keywords =>
    .kind "call" [callee.form, .list (forms args), .dict (keywordForms keywords)]
  | .getAttr object attr => .kind "getattr" [object.form, .str attr]
  | .getItem object index => .kind "getitem" [object.form, index.form]
  | .index object index => .kind "index" [object.form, index.form]
  | .slice object start stop step =>
    .kind "slice" [object.form, optionForm start, optionForm stop, optionForm step]
  | .block body => .kind "block" [.list (forms body)]
  | .ifChain branches => .kind "if_chain" [.list (branchForms true branches)]
  | .forEach var iterable step body =>
    .kind "for" [.str var, iterable.form, stepForm step, .list (forms body)]
  | .whileLoop condition body => .kind "while" [condition.form, .list (forms body)]
  | .breakLoop => .kind "break" []
  | .continueLoop => .kind "continue" []
  | .ret value => .kind "return" [optionForm value]
  | .global name => .kind "global" [.str name]
  | .tryCatch name body handler =>
    .kind "try" [name.elim .null .str, .list (forms body), .list (forms handler)]
  | .throw value => .kind "throw" [value.form]
  | .classDef decl => classForm decl
  | .define method => methodForm method
  | .lambda params body => .kind "lambda" [.list (paramForms params), .list (forms body)]
  | .matchCase subject cases => .kind "match" [subject.form, .list (caseForms cases)]
  | .embedded code => .kind "ffi" [.str code]
  | .includeFile path => .kind "include" [.str path]
  | .unpack operand => .kind "unpack" [operand.form]
  | .keywordUnpack operand => .kind "kwunpack" [operand.form]
  | .quoted value => .value value

def forms : List Node → List Form
  | [] => []
  | n :: ns => n.form :: forms ns

def optionForm : Option Node → Form
  | none => .null
  | some n => n.form

/-- the form of conditions, which are absent when there is none -/
def conditionForm : List Node → Form
  | [] => .null
  | n :: ns => .list (n.form :: forms ns)

/-- the form of a loop's step, one when it is absent -/
def stepForm : Option Node → Form
  | none => .int 1
  | some n => .kind "optional_step" [n.form]

def pairForms : List (Node × Node) → List Form
  | [] => []
  | (k, v) :: rest => .tuple [k.form, v.form] :: pairForms rest

def keywordForms : List (String × Node) → List (String × Form)
  | [] => []
  | (k, v) :: rest => (k, v.form) :: keywordForms rest

/-- the forms of branches; the first one is named differently from those after it -/
def branchForms (first : Bool) : List (Option Node × List Node) → List Form
  | [] => []
  | (none, body) :: rest => .kind "else" [.null, .list (forms body)] :: branchForms false rest
  | (some c, body) :: rest =>
    .kind (if first then "if" else "elif") [c.form, .list (forms body)] :: branchForms false rest

def caseForms : List (List Node × List Node) → List Form
  | [] => []
  | ([], body) :: rest => .tuple [.list [.str "else"], .list (forms body)] :: caseForms rest
  | (p :: ps, body) :: rest =>
    .tuple [.list (p.form :: forms ps), .list (forms body)] :: caseForms rest

def paramForms : List (Param Node) → List Form
  | [] => []
  | .receiver :: rest => .str "self" :: paramForms rest
  | .plain name value :: rest => .tuple [.str name, optionForm value] :: paramForms rest
  | .rest name :: rest => .tuple [.str ("*" ++ name), .null] :: paramForms rest
  | .keywords name :: rest => .tuple [.str ("**" ++ name), .null] :: paramForms rest

def fieldForms : List (String × Option Node) → List Form
  | [] => []
  | (name, value) :: rest => .tuple [.str name, optionForm value] :: fieldForms rest

def methodForm : Method Node → Form
  | ⟨name, params, body⟩ => .kind "def" [.str name, .list (paramForms params), .list (forms body)]

def methodForms : List (Method Node) → List Form
  | [] => []
  | m :: ms => methodForm m :: methodForms ms

def classForm : ClassDecl Node → Form
  | .mk name parents fields methods nested =>
    .kind "class" [.str name, .list (parents.map .str), .list (fieldForms fields),
      .list (methodForms methods), .list (classForms nested)]

def classForms : List (ClassDecl Node) → List Form
  | [] => []
  | c :: cs => classForm c :: classForms cs

end

def commaSeparated (items : List String) : String := ", ".intercalate items

/-- items in the parentheses of a tuple; a tuple of one item ends in a comma -/
def tupleText (items : List String) : String :=
  match items with
  | [item] => "(" ++ item ++ ",)"
  | _ => "(" ++ commaSeparated items ++ ")"

mutual

/-- a form written out, values of the store shown by the given function -/
def Form.text (shown : Value → String) : Form → String
  | .null => "None"
  | .int n => toString n
  | .real x => x.text
  | .str s => Text.quoted s
  | .tuple items => tupleText (formTexts shown items)
  | .list items => "[" ++ commaSeparated (formTexts shown items) ++ "]"
  | .dict items => "\x7b" ++ commaSeparated (entryTexts shown items) ++ "\x7d"
  | .value v => shown v

def formTexts (shown : Value → String) : List Form → List String
  | [] => []
  | f :: fs => f.text shown :: formTexts shown fs

/-- the entries of a dictionary written out -/
def entryTexts (shown : Value → String) : List (String × Form) → List String
  | [] => []
  | (k, f) :: rest => (Text.quoted k ++ ": " ++ f.text shown) :: entryTexts shown rest

end

end BraceScript
