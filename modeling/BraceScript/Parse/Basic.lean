import BraceScript.Node.Basic
import BraceScript.Number.Decimal
import BraceScript.Number.Reading
import BraceScript.Text.Quoted
import BraceScript.Token.Basic

/-!
# Reading tokens

A reader takes tokens off the front of a list and gives a result, or fails. The host bounds how deep readers may nest;
that bound is left out, as it is where trees are executed.

* `ParseError`   why a token list is not a program, with `ParseError.message`
* `Parse`        a reader
* `expect`       takes one token of a given kind, and of a given text if one is named
* `untilText`    repeats a reader until a token of a given text is next
-/

namespace BraceScript

/-- why a token list is not a program -/
inductive ParseError
  | unexpectedEnd
  | expected (what : String) (got : Token)
  | functionName
  | attributeName
  | assignTarget
  | updateTarget
  | unexpected (got : Option Token)
  | caseExpected (got : Option Token)
  | memberExpected (got : Option Token)
  /-- the text of a number token is no integer -/
  | badInteger (text : String)
  | longInteger (digits : Nat)
  /-- a number followed by a point and digits is no double -/
  | badNumber (text : String)
  /-- the nesting is deeper than the number of tokens, which does not happen -/
  | tooDeep
deriving DecidableEq, Repr

/-- a token as messages show it -/
def Token.shown : Option Token → String
  | none => "(None, None)"
  | some t => "(" ++ Text.quoted t.kind.label ++ ", " ++ Text.quoted t.text ++ ")"

/-- the message for a text that is no integer, which shows at most 200 characters of it -/
def badIntegerMessage (text : String) : String :=
  "invalid literal for int() with base 10: " ++
    String.ofList ((Text.quoted text).toList.take 200)

/-- the message for an integer of too many digits -/
def longIntegerMessage (digits : Nat) : String :=
  "Exceeds the limit (4300 digits) for integer string conversion: value has " ++ toString digits ++
    " digits; use sys.set_int_max_str_digits() to increase the limit"

/-- the message for a text that is no double -/
def badNumberMessage (text : String) : String :=
  "could not convert string to float: " ++ Text.quoted text

/-- the text of an error -/
def ParseError.message : ParseError → String
  | unexpectedEnd => "Unexpected EOF"
  | expected what got => "Expected " ++ what ++ ", got " ++ Token.shown (some got)
  | functionName => "Expected function name"
  | attributeName => "Attribute access must be followed by an ident"
  | assignTarget => "Invalid assignment target"
  | updateTarget => "Invalid augmented assignment target"
  | unexpected none => "Unexpected token None: None"
  | unexpected (some t) => "Unexpected token " ++ t.kind.label ++ ": " ++ t.text
  | caseExpected got => "Expected 'case' or 'else', got " ++ Token.shown got
  | memberExpected got =>
    "Expected field, method, or nested class in class, got " ++ Token.shown got
  | badInteger text => badIntegerMessage text
  | longInteger digits => longIntegerMessage digits
  | badNumber text => badNumberMessage text
  | tooDeep => "nesting too deep"

/-- a reader of tokens -/
abbrev Parse := StateT (List Token) (Except ParseError)

namespace Parse

def peek : Parse (Option Token) := do return (← get).head?

def peekSecond : Parse (Option Token) := do return (← get).tail.head?

def atText (text : String) : Parse Bool := do
  return (← get).head?.map Token.text == some text

/-- is the next token of the given kind and text? -/
def atToken (kind : Token.Kind) (text : String) : Parse Bool := do
  return (← get).head? == some ⟨kind, text⟩

def expectKind (kind : Token.Kind) : Parse Token := do
  match (← get) with
  | [] => throw .unexpectedEnd
  | t :: ts =>
    if t.kind ≠ kind then throw (.expected kind.label t)
    set ts
    return t

/-- take a token of the given kind and text -/
def expect (kind : Token.Kind) (text : String) : Parse Unit := do
  match (← get) with
  | [] => throw .unexpectedEnd
  | t :: ts =>
    if t.kind ≠ kind then throw (.expected kind.label t)
    if t.text ≠ text then throw (.expected text t)
    set ts

def symbol (text : String) : Parse Unit := expect .symbol text

def keyword (text : String) : Parse Unit := expect .keyword text

def ident : Parse String := do return (← expectKind .ident).text

def optionalSymbol (text : String) : Parse Unit := do
  if ← atText text then symbol text

/-- repeat a reader until a token of the given text is next, at most `fuel` times -/
def untilTextFrom {α : Type} (close : String) (step : Parse α) : Nat → Parse (List α)
  | 0 => throw .tooDeep
  | fuel + 1 => do
    if ← atText close then return []
    let a ← step
    let rest ← untilTextFrom close step fuel
    return a :: rest

/-- repeat a reader, which takes a token each time, until a token of the given text is next -/
def untilText {α : Type} (close : String) (step : Parse α) : Parse (List α) := do
  untilTextFrom close step ((← get).length + 1)

/-- repeat a reader while a condition on the next tokens holds, at most `fuel` times -/
def whileFrom {α : Type} (more : Parse Bool) (step : Parse α) : Nat → Parse (List α)
  | 0 => throw .tooDeep
  | fuel + 1 => do
    if ← more then
      let a ← step
      let rest ← whileFrom more step fuel
      return a :: rest
    else return []

/-- repeat a reader, which takes a token each time, while a condition holds -/
def whileNext {α : Type} (more : Parse Bool) (step : Parse α) : Parse (List α) := do
  whileFrom more step ((← get).length + 1)

/-- the readers that call each other at every depth of nesting -/
structure Grammar where
  /-- an expression whose operators bind at least as tightly as the given strength -/
  expr : Nat → Parse Node
  /-- an operand -/
  primary : Parse Node
  /-- statements up to a closing brace -/
  block : Parse (List Node)
  /-- a class -/
  classDecl : Parse (ClassDecl Node)

end Parse

end BraceScript
