import BraceScript.Text.Digit
import BraceScript.Text.Word
import BraceScript.Token.Basic
import BraceScript.Token.Comment

/-!
# From source text to tokens

At each position the first class that matches gives a token; a character that opens no token is
skipped, and so is a type annotation.

* `lexeme?`    the class and the length of the token at the head of the text
* `tokenize`   all tokens of a source text, comments cut out first
-/

namespace BraceScript.Token

/-- the class of a lexeme: a token of some kind, or an annotation, which gives no token -/
inductive Lexeme
  | token (kind : Kind)
  | typeHint
deriving DecidableEq, Repr

def augAssigns : List String := ["++", "+=", "-=", "*=", "/=", "%="]

/-- the comparison operators, longer ones first -/
def comparisons : List String := ["==", "!=", "<=", ">=", "<", ">"]

/-- the operators, the longer one first -/
def operators : List String := ["**", "+", "-", "*", "/", "%", "="]

def keywords : List String :=
  ["in", "def", "if", "else", "elif", "or", "and", "not", "for", "while", "break", "continue",
    "return", "global", "try", "catch", "throw", "class", "ffi", "match", "case", "lambda"]

def symbols : List Char := [';', '|', '?', ':', '{', '}', '[', ']', '(', ')', ',', '.']

/-- the length of the first of the given texts that the characters begin with -/
def literal? (texts : List String) (cs : List Char) : Option Nat :=
  (texts.find? fun t => t.toList.isPrefixOf cs).map String.length

/-- the length of a string in the given quotes at the head of the text -/
def enclosed? (mark : Char) : List Char → Option Nat
  | [] => none
  | c :: cs =>
    if c = mark && cs.contains mark then some ((cs.takeWhile (· != mark)).length + 2) else none

/-- the length of a string at the head of the text -/
def string? (cs : List Char) : Option Nat :=
  match enclosed? '"' cs with
  | some n => some n
  | none => enclosed? '\'' cs

/-- the length of a type annotation, `::` and a text in angle brackets, at the head of the text -/
def typeHint? : List Char → Option Nat
  | ':' :: ':' :: cs =>
    let blanks := (cs.takeWhile Text.isBlank).length
    match cs.drop blanks with
    | '<' :: rest =>
      let inner := (rest.takeWhile (· != '>')).length
      if inner = 0 || inner = rest.length then none else some (blanks + inner + 4)
    | _ => none
  | _ => none

def number? (cs : List Char) : Option Nat :=
  match (cs.takeWhile Text.isDigit).length with
  | 0 => none
  | n + 1 => some (n + 1)

/-- does a word end before these characters? -/
def endsWord (cs : List Char) : Bool :=
  match cs with
  | [] => true
  | c :: _ => !Text.isWord c

/-- does a word begin after this character? -/
def beginsWord (before : Option Char) : Bool :=
  match before with
  | none => true
  | some c => !Text.isWord c

/-- the length of a reserved word at the head of the text. It ends where a word ends; all but `def`
also begin where a word begins. -/
def keyword? (before : Option Char) (cs : List Char) : Option Nat :=
  (keywords.find? fun k =>
    k.toList.isPrefixOf cs && endsWord (cs.drop k.length) && (k == "def" || beginsWord before)).map
    String.length

/-- the length of a name at the head of the text -/
def ident? : List Char → Option Nat
  | [] => none
  | c :: cs => if Text.isNameStart c then some ((cs.takeWhile Text.isWord).length + 1) else none

/-- the length of a punctuation mark at the head of the text -/
def symbol? : List Char → Option Nat
  | [] => none
  | c :: _ => if symbols.contains c then some 1 else none

def lexemeOf (l : Lexeme) (n : Option Nat) : Option (Lexeme × Nat) := n.map fun n => (l, n)

/-- the first class that matches at the head of the text, after the given character -/
def lexeme? (before : Option Char) (cs : List Char) : Option (Lexeme × Nat) :=
  lexemeOf (.token .augAssign) (literal? augAssigns cs)
    <|> lexemeOf (.token .compare) (literal? comparisons cs)
    <|> lexemeOf (.token .op) (literal? operators cs)
    <|> lexemeOf (.token .string) (string? cs)
    <|> lexemeOf .typeHint (typeHint? cs)
    <|> lexemeOf (.token .number) (number? cs)
    <|> lexemeOf (.token .keyword) (keyword? before cs)
    <|> lexemeOf (.token .ident) (ident? cs)
    <|> lexemeOf (.token .symbol) (symbol? cs)

/-- drop a character from both ends of a text, as often as it stands there -/
def stripMark (mark : Char) (cs : List Char) : List Char :=
  ((cs.dropWhile (· = mark)).reverse.dropWhile (· = mark)).reverse

/-- the text of a token: its lexeme without the quote marks at its ends, single ones first -/
def textOf (lexeme : List Char) : String :=
  String.ofList (stripMark '"' (stripMark '\'' lexeme))

/-- the tokens of a text, of which the first `skip` characters belong to the last lexeme -/
def scan (skip : Nat) (before : Option Char) : List Char → List Token
  | [] => []
  | c :: cs =>
    match skip with
    | n + 1 => scan n (some c) cs
    | 0 =>
      match lexeme? before (c :: cs) with
      | some (.token kind, n) => ⟨kind, textOf ((c :: cs).take n)⟩ :: scan (n - 1) (some c) cs
      | some (.typeHint, n) => scan (n - 1) (some c) cs
      | none => scan 0 (some c) cs

end BraceScript.Token

namespace BraceScript

/-- the tokens of a source text -/
def tokenize (source : String) : List Token := Token.scan 0 none (Token.cutComments source.toList)

end BraceScript
