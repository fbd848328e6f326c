import BraceScript.Parse.Basic

/-!
# Reading expressions

An expression is an operand followed by operators. The arithmetic operators climb by strength;
the right side of a comparison, of a membership test and of `and` and `or` is a whole expression,
and the last three end the expression they stand in.

* `primary`      an operand: a number, text, name, assignment, collection, function, ...
* `expression`   an operand and what follows it
-/

namespace BraceScript.Parse

/-- how strongly an arithmetic operator binds -/
def strength : ArithOp → Nat
  | .add => 10
  | .sub => 10
  | .mul => 20
  | .div => 20
  | .mod => 20

def numeralText : Numeral → String
  | .int n => toString n
  | .real x => x.text

def integer (text : String) : Parse Node :=
  match readInt text with
  | .ok n => return .num (.int n)
  | .error .malformed => throw (.badInteger text)
  | .error (.tooLong digits) => throw (.longInteger digits)

/-- a number continued by a point and the digits of a number token -/
def withFraction (whole : Numeral) (digits : String) : Parse Node :=
  let text := numeralText whole ++ "." ++ digits
  match readDouble? text with
  | some x => return .num (.real x)
  | none => throw (.badNumber text)

/-! ## Parameters and blocks -/

def braces (g : Grammar) : Parse (List Node) := do
  symbol "\x7b"
  let body ← g.block
  symbol "\x7d"
  return body

def param (g : Grammar) : Parse (Param Node) := do
  let p ←
    if ← atText "**" then do
      expect .op "**"
      pure (Param.keywords (← ident))
    else if ← atText "*" then do
      expect .op "*"
      pure (Param.rest (← ident))
    else do
      let name ← ident
      if ← atText "=" then
        expect .op "="
        let value ← g.expr 0
        pure (Param.plain name (some value))
      else pure (Param.plain name none)
  optionalSymbol ","
  return p

def params (g : Grammar) : Parse (List (Param Node)) := do
  symbol "("
  let ps ← untilText ")" (param g)
  symbol ")"
  return ps

/-! ## Subscripts and calls -/

/-- what stands in square brackets after an expression -/
inductive Subscript
  | element (index : Node)
  | range (start stop step : Option Node)

/-- an expression unless a token of one of the given texts is next -/
def unlessAt (g : Grammar) (stops : List String) : Parse (Option Node) := do
  match (← peek).map Token.text with
  | some t => if stops.contains t then return none else return some (← g.expr 0)
  | none => return some (← g.expr 0)

/-- the part of a subscript after the first colon -/
def subscriptStep (g : Grammar) : Parse (Option Node) := do
  if ← atText ":" then
    symbol ":"
    unlessAt g ["]"]
  else return none

def subscript (g : Grammar) : Parse Subscript := do
  symbol "["
  let start ← unlessAt g [":"]
  let result ←
    if ← atText ":" then do
      symbol ":"
      let stop ← unlessAt g [":", "]"]
      let step ← subscriptStep g
      pure (Subscript.range start stop step)
    else pure (start.elim (Subscript.range none none none) Subscript.element)
  symbol "]"
  return result

inductive Argument
  | positional (value : Node)
  | named (name : String) (value : Node)

def argument (g : Grammar) : Parse Argument := do
  let a ←
    if ← atText "**" then do
      expect .op "**"
      pure (Argument.positional (.keywordUnpack (← g.expr 0)))
    else if ← atText "*" then do
      expect .op "*"
      pure (Argument.positional (.unpack (← g.expr 0)))
    else if (← peek).map Token.kind == some .ident && (← peekSecond).map Token.text == some "=" then do
      let name ← ident
      expect .op "="
      pure (Argument.named name (← g.expr 0))
    else
      pure (Argument.positional (← g.expr 0))
  optionalSymbol ","
  return a

/-- put a named argument; a name keeps its first place and its last value -/
def putNamed (name : String) (value : Node) : List (String × Node) → List (String × Node)
  | [] => [(name, value)]
  | (k, v) :: rest => if k = name then (k, value) :: rest else (k, v) :: putNamed name value rest

def positionals : List Argument → List Node
  | [] => []
  | .positional v :: rest => v :: positionals rest
  | .named .. :: rest => positionals rest

/-- the named arguments, each name once -/
def nameds (acc : List (String × Node)) : List Argument → List (String × Node)
  | [] => acc
  | .positional _ :: rest => nameds acc rest
  | .named k v :: rest => nameds (putNamed k v acc) rest

def arguments (g : Grammar) (callee : Node) : Parse Node := do
  symbol "("
  let items ← untilText ")" (argument g)
  symbol ")"
  return .call callee (positionals items) (nameds [] items)

/-! ## Names -/

/-- the attributes after a name, at most `fuel` -/
def attributesFrom : Nat → Node → Parse Node
  | 0, _ => throw .tooDeep
  | fuel + 1, node => do
    if ← atToken .symbol "." then
      symbol "."
      let attr ← ident
      attributesFrom fuel (.getAttr node attr)
    else return node

/-- the subscripts after a name, at most `fuel` -/
def elementsFrom (g : Grammar) : Nat → Node → Parse Node
  | 0, _ => throw .tooDeep
  | fuel + 1, node => do
    if ← atToken .symbol "[" then
      match ← subscript g with
      | .element index => elementsFrom g fuel (.getItem node index)
      | .range start stop step => elementsFrom g fuel (.slice node start stop step)
    else return node

def assignTo (target value : Node) : Parse Node :=
  match target with
  | .getItem object index => return .setIndex object index value
  | .var name => return .assign name value
  | .getAttr object attr => return .setAttr object attr value
  | _ => throw .assignTarget

/-- the update of a target by an operator and a value -/
def updateBy (target : Node) (op : AugOp) (value : Node) : Parse Node :=
  match target with
  | .var name => return .augAssign name op value
  | .getAttr object attr => return .augAttr object attr op value
  | .getItem object index => return .augIndex object index op value
  | _ => throw .updateTarget

/-- a name with its attributes and subscripts, and an assignment to it -/
def nameOrAssignment (g : Grammar) : Parse Node := do
  let name ← ident
  let node ← attributesFrom ((← get).length + 1) (.var name)
  let node ← elementsFrom g ((← get).length + 1) node
  if ← atToken .op "=" then
    expect .op "="
    let value ← g.expr 0
    assignTo node value
  else if (← peek).map Token.kind == some .augAssign then
    let op := (← expectKind .augAssign).text
    if op = "++" then updateBy node (.arith .add) (.num (.int 1))
    else if op = "--" then updateBy node (.arith .sub) (.num (.int 1))
    else
      let value ← g.expr 0
      updateBy node (AugOp.ofText op) value
  else return node

/-! ## Collections -/

/-- do the tokens after an opening brace hold a colon or a bar before it is closed, outside of inner
braces? -/
def holdsEntries (depth : Nat) : List Token → Bool
  | [] => false
  | t :: ts =>
    if t.text = "\x7b" then holdsEntries (depth + 1) ts
    else if t.text = "\x7d" then (if depth ≤ 1 then false else holdsEntries (depth - 1) ts)
    else if (t.text = ":" || t.text = "|") && depth = 1 then true
    else holdsEntries depth ts

/-- an entry of a dictionary after the first one -/
def entry (g : Grammar) : Parse (Node × Node) := do
  optionalSymbol ","
  let key ← g.expr 0
  symbol ":"
  let value ← g.expr 0
  return (key, value)

/-- the rest of a dictionary comprehension after its key -/
def dictComprehension (g : Grammar) (key : Node) : Parse Node := do
  symbol "|"
  let value ← g.expr 0
  symbol ","
  let var ← ident
  symbol ","
  let iterable ← g.expr 0
  let condition ←
    if ← atText "|" then do
      symbol "|"
      pure (some (← g.expr 0))
    else pure none
  symbol "\x7d"
  return .dictComp key value var iterable condition

/-- the rest of a dictionary after its first key -/
def dictEntries (g : Grammar) (key : Node) : Parse Node := do
  symbol ":"
  let value ← g.expr 0
  let rest ← untilText "\x7d" (entry g)
  symbol "\x7d"
  return .dict ((key, value) :: rest)

/-- the rest of a block after its opening brace -/
def blockRest (g : Grammar) : Parse Node := do
  let body ← g.block
  symbol "\x7d"
  return .block body

/-- what stands in braces in an expression: a dictionary, a comprehension or a block -/
def braced (g : Grammar) : Parse Node := do
  symbol "\x7b"
  if ← atText "\x7d" then
    symbol "\x7d"
    return .dict []
  else if holdsEntries 1 (← get) then
    let key ← g.expr 0
    if ← atText "|" then dictComprehension g key
    else if ← atText ":" then dictEntries g key
    else blockRest g
  else blockRest g

def separated (g : Grammar) (mark : String) : Parse Node := do
  symbol mark
  g.expr 0

/-- the rest of a list comprehension after its body -/
def listComprehension (g : Grammar) (body : Node) : Parse Node := do
  symbol "|"
  let var ← ident
  symbol ","
  let iterable ← g.expr 0
  symbol ","
  let step ← g.expr 0
  let conditions ← whileNext (atToken .symbol "|") (separated g "|")
  symbol "]"
  return .listComp body var iterable step conditions

/-- a list or a list comprehension in square brackets -/
def bracketed (g : Grammar) : Parse Node := do
  symbol "["
  if ← atText "]" then
    symbol "]"
    return .list []
  else
    let first ← g.expr 0
    if ← atToken .symbol "|" then listComprehension g first
    else
      let rest ← whileNext (atToken .symbol ",") (separated g ",")
      symbol "]"
      return .list (first :: rest)

/-! ## Match -/

/-- one case of a match: its patterns, none for the default, and its body -/
def matchArm (g : Grammar) : Parse (List Node × List Node) := do
  if ← atText "case" then
    keyword "case"
    let first ← g.expr 0
    let rest ← whileNext (atText "|") (separated g "|")
    let body ← braces g
    return (first :: rest, body)
  else if ← atText "else" then
    keyword "else"
    let body ← braces g
    return ([], body)
  else throw (.caseExpected (← peek))

def matchCases (g : Grammar) : Parse Node := do
  keyword "match"
  symbol "("
  let subject ← g.expr 0
  symbol ")"
  symbol "\x7b"
  let cases ← untilText "\x7d" (matchArm g)
  symbol "\x7d"
  return .matchCase subject cases

/-! ## Operands and operators -/

/-- the negation of an operand; a number is negated at once -/
def negated : Node → Node
  | .num n => .num n.neg
  | e => .neg e

/-- what follows `not` -/
def notOperand (g : Grammar) : Parse Node := do
  keyword "not"
  if ← atToken .keyword "in" then
    keyword "in"
    return .danglingOutside (← g.expr 0)
  else return .not (← g.primary)

def lambda (g : Grammar) : Parse Node := do
  keyword "lambda"
  let ps ← params g
  let body ← braces g
  return .lambda ps body

def parenthesized (g : Grammar) : Parse Node := do
  symbol "("
  let e ← g.expr 0
  symbol ")"
  return e

/-- an operand that begins with neither a number, a text nor a name -/
def operand (g : Grammar) (t : Token) : Parse Node := do
  if t.text = "\x7b" then braced g
  else if t.text = "[" then bracketed g
  else if t.text = "match" then matchCases g
  else if t.text = "not" then notOperand g
  else if t.text = "-" then
    expect .op "-"
    return negated (← g.primary)
  else if t.text = "**" then
    expect .op "**"
    return .keywordUnpack (← g.primary)
  else if t.text = "*" then
    expect .op "*"
    return .unpack (← g.primary)
  else if t.text = "lambda" then lambda g
  else if t.text = "(" then parenthesized g
  else throw (.unexpected (some t))

def primary (g : Grammar) : Parse Node := do
  match ← peek with
  | none => throw (.unexpected none)
  | some t =>
    match t.kind with
    | .number =>
      let _ ← expectKind .number
      integer t.text
    | .string =>
      let _ ← expectKind .string
      return .str t.text
    | .ident => nameOrAssignment g
    | _ => operand g t

/-- what a point after an operand gives: a fraction of a number, or an attribute -/
def afterPoint (node : Node) : Parse Node := do
  symbol "."
  match node, ← peek with
  | _, some ⟨.ident, attr⟩ =>
    let _ ← ident
    return .getAttr node attr
  | .num n, some ⟨.number, digits⟩ =>
    let _ ← expectKind .number
    withFraction n digits
  | _, _ => throw .attributeName

def conditional (g : Grammar) (condition : Node) : Parse Node := do
  symbol "?"
  let yes ← g.expr 0
  symbol ":"
  let no ← g.expr 0
  return .ternary condition yes no

/-- one operator after an operand and its right side; `none` when the expression ends, and
whether it goes on after the new operand -/
def extend (g : Grammar) (least : Nat) (node : Node) (t : Token) : Parse (Option (Node × Bool)) := do
  if t.text = "in" then
    keyword "in"
    return some (.inside node (← g.expr 0), false)
  else if t.text = "not" then
    if (← peekSecond).map Token.text == some "in" then
      keyword "not"
      keyword "in"
      return some (.outside node (← g.expr 0), false)
    else if t.kind = .compare then
      let op := (← expectKind .compare).text
      return some (.compare (CompareOp.ofText op) node (← g.expr 0), true)
    else return none
  else if t.text = "and" then
    keyword "and"
    return some (.and node (← g.expr 0), false)
  else if t.text = "or" then
    keyword "or"
    return some (.or node (← g.expr 0), false)
  else if t.kind = .compare then
    let op := (← expectKind .compare).text
    return some (.compare (CompareOp.ofText op) node (← g.expr 0), true)
  else
    match if t.kind = .op then ArithOp.ofText? t.text else none with
    | some op =>
      if strength op < least then return none
      let _ ← expectKind .op
      return some (.binop op node (← g.expr (strength op + 1)), true)
    | none =>
      if t.text = "(" then return some (← arguments g node, true)
      else if t.text = "[" then
        match ← subscript g with
        | .element index => return some (.index node index, true)
        | .range start stop step => return some (.slice node start stop step, true)
      else if t.text = "." then return some (← afterPoint node, true)
      else if t.text = "?" then return some (← conditional g node, true)
      else return none

/-- the operators after an operand, at most `fuel` -/
def operatorsFrom (g : Grammar) (least : Nat) : Nat → Node → Parse Node
  | 0, _ => throw .tooDeep
  | fuel + 1, node => do
    match ← peek with
    | none => return node
    | some t =>
      match ← extend g least node t with
      | none => return node
      | some (node, true) => operatorsFrom g least fuel node
      | some (node, false) => return node

/-- an operand and the operators after it that bind at least as tightly as `least` -/
def expression (g : Grammar) (least : Nat) : Parse Node := do
  let node ← primary g
  operatorsFrom g least ((← get).length + 1) node

end BraceScript.Parse
