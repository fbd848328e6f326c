import BraceScript.Parse.Expression
import BraceScript.Text.Digit

/-!
# Reading statements

* `statement`   one statement
* `block`       statements up to a closing brace
* `program`     statements up to the end
-/

namespace BraceScript.Parse

def condition (g : Grammar) : Parse Node := do
  symbol "("
  let c ← g.expr 0
  symbol ")"
  return c

/-- the parts of a dotted name, at most `fuel` -/
def nameParts : Nat → Parse (List String)
  | 0 => throw .tooDeep
  | fuel + 1 => do
    let part ← ident
    if ← atText "." then
      symbol "."
      let rest ← nameParts fuel
      return part :: rest
    else return [part]

/-- a function definition; a dotted name makes it a method with a receiver -/
def functionDef (g : Grammar) : Parse (Method Node) := do
  let _ ← expectKind .keyword
  if (← peek).map Token.kind != some .ident then throw .functionName
  let parts ← nameParts ((← get).length + 1)
  let ps ← params g
  let body ← braces g
  let ps := if 1 < parts.length then .receiver :: ps else ps
  return ⟨".".intercalate parts, ps, body⟩

def elifBranch (g : Grammar) : Parse (Option Node × List Node) := do
  keyword "elif"
  let c ← condition g
  let body ← braces g
  return (some c, body)

def ifChain (g : Grammar) : Parse Node := do
  keyword "if"
  let c ← condition g
  let body ← braces g
  let more ← whileNext (atText "elif") (elifBranch g)
  if ← atText "else" then
    keyword "else"
    let last ← braces g
    return .ifChain ((some c, body) :: more ++ [(none, last)])
  else return .ifChain ((some c, body) :: more)

def forEach (g : Grammar) : Parse Node := do
  keyword "for"
  symbol "("
  let var ← ident
  symbol ","
  let iterable ← g.expr 0
  let step ←
    if ← atText "," then do
      symbol ","
      pure (some (← g.expr 0))
    else pure none
  symbol ")"
  let body ← braces g
  return .forEach var iterable step body

def whileLoop (g : Grammar) : Parse Node := do
  keyword "while"
  let c ← condition g
  let body ← braces g
  return .whileLoop c body

/-- the name in the head of a handler and what is left of the tokens. A head that is not a name in
parentheses gives no name, and the tokens that fit are gone. -/
def handlerName : List Token → Option String × List Token
  | ⟨.symbol, "("⟩ :: ⟨.ident, name⟩ :: ⟨.symbol, ")"⟩ :: ts => (some name, ts)
  | ⟨.symbol, "("⟩ :: ⟨.ident, _⟩ :: ts => (none, ts)
  | ⟨.symbol, "("⟩ :: ts => (none, ts)
  | ts => (none, ts)

def tryCatch (g : Grammar) : Parse Node := do
  keyword "try"
  let body ← braces g
  keyword "catch"
  let (name, ts) := handlerName (← get)
  set ts
  let handler ← braces g
  return .tryCatch name body handler

/-- a member of a class, and the mark after a field -/
inductive Member
  | field (name : String) (value : Option Node)
  | method (m : Method Node)
  | nested (c : ClassDecl Node)

def member (g : Grammar) : Parse Member := do
  match ← peek with
  | some ⟨.keyword, "def"⟩ => return .method (← functionDef g)
  | some ⟨.keyword, "class"⟩ => return .nested (← g.classDecl)
  | some ⟨.ident, name⟩ =>
    let _ ← ident
    let value ←
      if ← atText "=" then do
        expect .op "="
        pure (some (← g.expr 0))
      else pure none
    optionalSymbol ";"
    return .field name value
  | got => throw (.memberExpected got)

def fieldsOf : List Member → List (String × Option Node)
  | [] => []
  | .field name value :: rest => (name, value) :: fieldsOf rest
  | _ :: rest => fieldsOf rest

def methodsOf : List Member → List (Method Node)
  | [] => []
  | .method m :: rest => m :: methodsOf rest
  | _ :: rest => methodsOf rest

def nestedOf : List Member → List (ClassDecl Node)
  | [] => []
  | .nested c :: rest => c :: nestedOf rest
  | _ :: rest => nestedOf rest

/-- the name of a parent and the comma after it -/
def parent : Parse String := do
  let name ← ident
  optionalSymbol ","
  return name

/-- the parents of a class, in parentheses if there are any -/
def parents : Parse (List String) := do
  if ← atText "(" then
    symbol "("
    let names ← untilText ")" parent
    symbol ")"
    return names
  else return []

def classDecl (g : Grammar) : Parse (ClassDecl Node) := do
  keyword "class"
  let name ← ident
  let ps ← parents
  symbol "\x7b"
  let members ← untilText "\x7d" (member g)
  symbol "\x7d"
  return .mk name ps (fieldsOf members) (methodsOf members) (nestedOf members)

/-- a file to include, as a statement or as a call -/
def includeFile (g : Grammar) : Parse Node := do
  expect .ident "include"
  if ← atText "(" then
    symbol "("
    let e ← g.expr 0
    symbol ")"
    return .call (.var "include") [e] []
  else return .includeFile (← expectKind .string).text

/-- the text of a token inside an embedded block -/
def embeddedText (t : Token) : String :=
  (if t.kind = .string then Text.quoted t.text else t.text) ++ " "

/-- the texts of the tokens of an embedded block up to the brace that closes it, and the tokens
after that brace -/
def embeddedTokens (depth : Nat) : List Token → List String × List Token
  | [] => ([], [])
  | t :: ts =>
    if t = ⟨.symbol, "\x7d"⟩ && depth ≤ 1 then ([], ts)
    else
      let depth := if t = ⟨.symbol, "\x7b"⟩ then depth + 1
        else if t = ⟨.symbol, "\x7d"⟩ then depth - 1 else depth
      let (texts, rest) := embeddedTokens depth ts
      (embeddedText t :: texts, rest)

/-- a block of the embedded language, kept as text -/
def embedded : Parse Node := do
  keyword "ffi"
  symbol "\x7b"
  let (texts, rest) := embeddedTokens 1 (← get)
  set rest
  return .embedded (String.ofList (trimBlanks (String.join texts).toList))

/-- one statement -/
def statement (g : Grammar) : Parse Node := do
  match (← peek).map Token.text with
  | some "def" => return .define (← functionDef g)
  | some "if" => ifChain g
  | some "for" => forEach g
  | some "while" => whileLoop g
  | some "break" =>
    keyword "break"
    return .breakLoop
  | some "continue" =>
    keyword "continue"
    return .continueLoop
  | some "return" =>
    keyword "return"
    if ← atText ";" then return .ret none
    else return .ret (some (← g.expr 0))
  | some "global" =>
    keyword "global"
    return .global (← ident)
  | some "try" => tryCatch g
  | some "throw" =>
    keyword "throw"
    return .throw (← g.expr 0)
  | some "class" => return .classDef (← classDecl g)
  | some "include" => includeFile g
  | some "ffi" => embedded
  | some "match" => matchCases g
  | _ => expression g 0

/-- statements up to a token of the given text, or up to the end, at most `fuel` -/
def statementsFrom (g : Grammar) (close : Option String) : Nat → Parse (List Node)
  | 0 => throw .tooDeep
  | fuel + 1 => do
    match ← peek with
    | none => return []
    | some t =>
      if close = some t.text then return []
      let s ← statement g
      let rest ← statementsFrom g close fuel
      return s :: rest

/-- statements up to a closing brace or the end -/
def block (g : Grammar) : Parse (List Node) := do
  statementsFrom g (some "\x7d") ((← get).length + 1)

def program (g : Grammar) : Parse (List Node) := do
  statementsFrom g none ((← get).length + 1)

/-- the readers for a given depth of nesting -/
def grammar : Nat → Grammar
  | 0 => ⟨fun _ _ => .error .tooDeep, fun _ => .error .tooDeep, fun _ => .error .tooDeep,
      fun _ => .error .tooDeep⟩
  | n + 1 => ⟨fun least ts => expression (grammar n) least ts, fun ts => primary (grammar n) ts,
      fun ts => block (grammar n) ts, fun ts => classDecl (grammar n) ts⟩

end BraceScript.Parse

namespace BraceScript

/-- the program that a token list stands for. Readers take a token before they call each other, so
the number of tokens bounds the nesting. -/
def parse (tokens : List Token) : Except ParseError (List Node) := do
  let (body, _) ← Parse.program (Parse.grammar (tokens.length + 1)) tokens
  return body

end BraceScript
