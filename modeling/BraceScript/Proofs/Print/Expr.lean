import BraceScript.Parse.Statement
import BraceScript.Token.Lexer
import Mathlib.Algebra.Ring.Nat

/-!
# Expressions and their written form

The expressions that can be written out and read back: literals, variables, collections, operators,
calls, attributes, subscripts and functions with one expression as their body. Every compound
expression inside another one is written in parentheses of its own.

* `Word`   a text that no reader looks for
* `Expr`   an expression, with `Expr.node` its syntax tree
* `Expr.print`, `Expr.wrapped`   its tokens, bare and as a part of another expression
* `Expr.Sound`   literals are not too long and the keywords of a call are distinct
-/

namespace BraceScript

def reservedTexts : List String :=
  Token.keywords ++ Token.operators ++ Token.symbols.map (fun c => String.ofList [c]) ++ ["include"]

/-- a text that no reader looks for -/
structure Word where
  text : String
  free : text ∉ reservedTexts

theorem Word.ne (w : Word) {s : String} (h : s ∈ reservedTexts) : w.text ≠ s :=
  fun e => w.free (e ▸ h)

/-- how an argument of a call is passed -/
inductive Passing
  | plain
  | unpack
  | keywordUnpack
deriving DecidableEq, Repr

/-- an expression that can be written out -/
inductive Expr
  | num (n : Nat)
  | str (s : Word)
  | var (name : Word)
  | list (items : List Expr)
  | dict (entries : List (Expr × Expr))
  | binop (op : ArithOp) (left right : Expr)
  | compare (op : CompareOp) (left right : Expr)
  | inside (left right : Expr)
  | outside (left right : Expr)
  | and (left right : Expr)
  | or (left right : Expr)
  | not (operand : Expr)
  | ternary (condition yes no : Expr)
  | call (callee : Expr) (args : List (Passing × Expr)) (keywords : List (Word × Expr))
  | getAttr (object : Expr) (attr : Word)
  /-- an element of a variable -/
  | getItem (name : Word) (index : Expr)
  /-- an element of an expression in parentheses -/
  | index (object index : Expr)
  | slice (object : Expr) (start stop step : Option Expr)
  | lambda (params : List (Word × Option Expr)) (body : Expr)

/-! ## syntax trees -/

/-- the tree of an argument -/
def Passing.node : Passing → Node → Node
  | plain, n => n
  | unpack, n => .unpack n
  | keywordUnpack, n => .keywordUnpack n

namespace Expr

mutual

/-- the syntax tree of an expression -/
def node : Expr → Node
  | num n => .num (.int n)
  | str s => .str s.text
  | var name => .var name.text
  | list items => .list (itemNodes items)
  | dict entries => .dict (entryNodes entries)
  | binop op left right => .binop op left.node right.node
  | compare op left right => .compare op left.node right.node
  | inside left right => .inside left.node right.node
  | outside left right => .outside left.node right.node
  | and left right => .and left.node right.node
  | or left right => .or left.node right.node
  | not operand => .not operand.node
  | ternary condition yes no => .ternary condition.node yes.node no.node
  | call callee args keywords => .call callee.node (argNodes args) (keywordNodes keywords)
  | getAttr object attr => .getAttr object.node attr.text
  | getItem name i => .getItem (.var name.text) i.node
  | index object i => .index object.node i.node
  | slice object start stop step =>
    .slice object.node (optionNode start) (optionNode stop) (optionNode step)
  | lambda params body => .lambda (paramNodes params) [body.node]

def itemNodes : List Expr → List Node
  | [] => []
  | e :: es => e.node :: itemNodes es

def entryNodes : List (Expr × Expr) → List (Node × Node)
  | [] => []
  | (key, value) :: es => (key.node, value.node) :: entryNodes es

def argNodes : List (Passing × Expr) → List Node
  | [] => []
  | (p, e) :: es => p.node e.node :: argNodes es

def keywordNodes : List (Word × Expr) → List (String × Node)
  | [] => []
  | (name, e) :: es => (name.text, e.node) :: keywordNodes es

def optionNode : Option Expr → Option Node
  | none => none
  | some e => some e.node

def paramNodes : List (Word × Option Expr) → List (Param Node)
  | [] => []
  | (name, value) :: ps => .plain name.text (optionNode value) :: paramNodes ps

end

end Expr

/-! ## tokens -/

@[simp] def mark (text : String) : Token := ⟨.symbol, text⟩

@[simp] def reserved (text : String) : Token := ⟨.keyword, text⟩

def commas : List (List Token) → List Token
  | [] => []
  | [piece] => piece
  | piece :: next :: rest => piece ++ mark "," :: commas (next :: rest)

/-- tokens in parentheses -/
def parens (ts : List Token) : List Token := mark "(" :: ts ++ [mark ")"]

/-- the mark before an unpacked argument -/
def Passing.tokens : Passing → List Token
  | plain => []
  | unpack => [⟨.op, "*"⟩]
  | keywordUnpack => [⟨.op, "**"⟩]

namespace Expr

/-- is the expression written by a single token? -/
def isAtom : Expr → Bool
  | num _ => true
  | str _ => true
  | var _ => true
  | _ => false

/-- put the tokens of an expression in parentheses unless it is a single token -/
def enclose (e : Expr) (ts : List Token) : List Token := if e.isAtom then ts else parens ts

mutual

/-- the tokens of an expression, those of the compound expressions in it in parentheses -/
def print : Expr → List Token
  | num n => [⟨.number, toString n⟩]
  | str s => [⟨.string, s.text⟩]
  | var name => [⟨.ident, name.text⟩]
  | list items => mark "[" :: commas (itemTokens items) ++ [mark "]"]
  | dict entries => mark "\x7b" :: commas (entryTokens entries) ++ [mark "\x7d"]
  | binop op left right =>
    left.enclose left.print ++ ⟨.op, op.text⟩ :: right.enclose right.print
  | compare op left right =>
    left.enclose left.print ++ ⟨.compare, op.text⟩ :: right.enclose right.print
  | inside left right => left.enclose left.print ++ reserved "in" :: right.enclose right.print
  | outside left right =>
    left.enclose left.print ++ reserved "not" :: reserved "in" :: right.enclose right.print
  | and left right => left.enclose left.print ++ reserved "and" :: right.enclose right.print
  | or left right => left.enclose left.print ++ reserved "or" :: right.enclose right.print
  | not operand => reserved "not" :: operand.enclose operand.print
  | ternary condition yes no =>
    condition.enclose condition.print ++ mark "?" :: (yes.enclose yes.print ++
      mark ":" :: no.enclose no.print)
  | call callee args keywords =>
    callee.enclose callee.print ++ parens (commas (argTokens args ++ keywordTokens keywords))
  | getAttr object attr => object.enclose object.print ++ [mark ".", ⟨.ident, attr.text⟩]
  | getItem name i => ⟨.ident, name.text⟩ :: mark "[" :: i.enclose i.print ++ [mark "]"]
  | index object i => parens object.print ++ mark "[" :: i.enclose i.print ++ [mark "]"]
  | slice object start stop step =>
    parens object.print ++ mark "[" :: optionTokens start ++ mark ":" :: optionTokens stop ++
      stepTokens step ++ [mark "]"]
  | lambda params body =>
    reserved "lambda" :: parens (commas (paramTokens params)) ++
      mark "\x7b" :: body.enclose body.print ++ [mark "\x7d"]

def itemTokens : List Expr → List (List Token)
  | [] => []
  | e :: es => e.enclose e.print :: itemTokens es

def entryTokens : List (Expr × Expr) → List (List Token)
  | [] => []
  | (key, value) :: es =>
    (key.enclose key.print ++ mark ":" :: value.enclose value.print) :: entryTokens es

def argTokens : List (Passing × Expr) → List (List Token)
  | [] => []
  | (p, e) :: es => (p.tokens ++ e.enclose e.print) :: argTokens es

def keywordTokens : List (Word × Expr) → List (List Token)
  | [] => []
  | (name, e) :: es =>
    (⟨.ident, name.text⟩ :: ⟨.op, "="⟩ :: e.enclose e.print) :: keywordTokens es

def optionTokens : Option Expr → List Token
  | none => []
  | some e => e.enclose e.print

def stepTokens : Option Expr → List Token
  | none => []
  | some e => mark ":" :: e.enclose e.print

def paramTokens : List (Word × Option Expr) → List (List Token)
  | [] => []
  | (name, none) :: ps => [⟨.ident, name.text⟩] :: paramTokens ps
  | (name, some e) :: ps =>
    (⟨.ident, name.text⟩ :: ⟨.op, "="⟩ :: e.enclose e.print) :: paramTokens ps

end

/-- the tokens of an expression as a part of another one -/
def wrapped (e : Expr) : List Token := e.enclose e.print

def entryPiece (p : Expr × Expr) : List Token := p.1.wrapped ++ mark ":" :: p.2.wrapped

/-- the tokens of an argument -/
def argPiece (p : Passing × Expr) : List Token := p.1.tokens ++ p.2.wrapped

/-- the tokens of a keyword argument, or of a parameter with a default -/
def namedPiece (p : Word × Expr) : List Token :=
  ⟨.ident, p.1.text⟩ :: ⟨.op, "="⟩ :: p.2.wrapped

/-- the tokens of a parameter -/
def paramPiece : Word × Option Expr → List Token
  | (name, none) => [⟨.ident, name.text⟩]
  | (name, some e) => namedPiece (name, e)

theorem itemTokens_eq (items : List Expr) : itemTokens items = items.map wrapped := by
  induction items with
  | nil => rfl
  | cons e items ih => rw [itemTokens, ih]; rfl

theorem entryTokens_eq (entries : List (Expr × Expr)) :
    entryTokens entries = entries.map entryPiece := by
  induction entries with
  | nil => rfl
  | cons p entries ih => rw [entryTokens, ih]; rfl

theorem argTokens_eq (args : List (Passing × Expr)) : argTokens args = args.map argPiece := by
  induction args with
  | nil => rfl
  | cons p args ih => rw [argTokens, ih]; rfl

theorem keywordTokens_eq (keywords : List (Word × Expr)) :
    keywordTokens keywords = keywords.map namedPiece := by
  induction keywords with
  | nil => rfl
  | cons p keywords ih => rw [keywordTokens, ih]; rfl

theorem paramTokens_eq (params : List (Word × Option Expr)) :
    paramTokens params = params.map paramPiece := by
  induction params with
  | nil => rfl
  | cons p params ih =>
    obtain ⟨name, value⟩ := p
    cases value with
    | none => rw [paramTokens, ih]; rfl
    | some e => rw [paramTokens, ih]; rfl

/-! ## sound expressions -/

/-- every literal has at most the number of digits that can be read, every comparison is one of the six
of the language, and the keywords of every call are distinct -/
inductive Sound : Expr → Prop
  | num {n : Nat} (short : n < 10 ^ maxDigits) : Sound (num n)
  | str {s : Word} : Sound (str s)
  | var {name : Word} : Sound (var name)
  | list {items : List Expr} (each : ∀ e ∈ items, Sound e) : Sound (list items)
  | dict {entries : List (Expr × Expr)} (keys : ∀ p ∈ entries, Sound p.1)
      (values : ∀ p ∈ entries, Sound p.2) : Sound (dict entries)
  | binop {op : ArithOp} {l r : Expr} (left : Sound l) (right : Sound r) : Sound (binop op l r)
  | compare {op : CompareOp} {l r : Expr} (sign : ∀ s, op ≠ .other s) (left : Sound l)
      (right : Sound r) : Sound (compare op l r)
  | inside {l r : Expr} (left : Sound l) (right : Sound r) : Sound (inside l r)
  | outside {l r : Expr} (left : Sound l) (right : Sound r) : Sound (outside l r)
  | and {l r : Expr} (left : Sound l) (right : Sound r) : Sound (and l r)
  | or {l r : Expr} (left : Sound l) (right : Sound r) : Sound (or l r)
  | not {e : Expr} (operand : Sound e) : Sound (not e)
  | ternary {c y n : Expr} (condition : Sound c) (yes : Sound y) (no : Sound n) :
      Sound (ternary c y n)
  | call {f : Expr} {args : List (Passing × Expr)} {keywords : List (Word × Expr)}
      (callee : Sound f) (each : ∀ p ∈ args, Sound p.2) (named : ∀ p ∈ keywords, Sound p.2)
      (distinct : (keywords.map fun p => p.1.text).Nodup) : Sound (call f args keywords)
  | getAttr {o : Expr} {attr : Word} (object : Sound o) : Sound (getAttr o attr)
  | getItem {name : Word} {i : Expr} (place : Sound i) : Sound (getItem name i)
  | index {o i : Expr} (object : Sound o) (place : Sound i) : Sound (index o i)
  | slice {o : Expr} {start stop step : Option Expr} (object : Sound o)
      (first : ∀ e ∈ start, Sound e) (last : ∀ e ∈ stop, Sound e) (stride : ∀ e ∈ step, Sound e) :
      Sound (slice o start stop step)
  | lambda {params : List (Word × Option Expr)} {b : Expr}
      (defaults : ∀ p ∈ params, ∀ e ∈ p.2, Sound e) (body : Sound b) : Sound (lambda params b)

end Expr

end BraceScript
