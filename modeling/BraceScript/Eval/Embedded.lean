import BraceScript.Eval.Arithmetic
import BraceScript.Eval.Sequence
import BraceScript.Text.Escape
import BraceScript.Text.Word

/-!
# Embedded statements

A block of statements of the language of the host. The statements see the variables of the scope that are not
functions, and behind them what the host has; what they bind comes back to the scope when all of them have run,
unless it is a function or type.

Of the language only assignments and printing are followed. A run has no answer where a block comes to

* a statement of any other form,
* a name with a character that the host would replace by others, such as a ligature,
* a name of the host for something that is no value here (`hostOthers`), or
* a call of `print` after that name was given to another function of the host, except where this is `exec`
  and its argument is an assignment between quotes.

* `EmbeddedExpr`, `EmbeddedStmt`   expressions and statements
* `EmbeddedStmt.read`   the statement that a text stands for
* `hostNamed?`          what the host has under a name
* `runEmbedded`         runs a block of statements
-/

namespace BraceScript

/-- an expression of the embedded language -/
inductive EmbeddedExpr
  | int (n : Int)
  | text (s : String)
  | name (s : String)
  | sum (left right : EmbeddedExpr)
deriving DecidableEq, Repr

/-- a statement of the embedded language -/
inductive EmbeddedStmt
  | skip
  | bind (name : String) (value : EmbeddedExpr)
  | update (name : String) (op : ArithOp) (value : EmbeddedExpr)
  /-- an expression that is evaluated and dropped -/
  | drop (value : EmbeddedExpr)
  | print (args : List EmbeddedExpr)
deriving DecidableEq, Repr

/-! ## Reading -/

/-- what is read from a text, or what is wrong with it; neither where the text is outside the part of the
language that is followed -/
abbrev Reading (α : Type) := Except (Option EmbeddedFlaw) α

/-- a word of a statement -/
inductive EmbeddedWord
  | number (digits : List Char)
  | text (s : String)
  | name (s : String)
  | mark (s : String)
deriving DecidableEq, Repr

/-- the blanks between words; a statement is on one line -/
def isEmbeddedBlank (c : Char) : Bool := c = ' ' || c = '\t' || c = '\x0c'

/-- the rest of a quoted text: its characters and what follows it -/
def embeddedText (quote : Char) : Nat → List Char → Reading (List Char × List Char)
  | 0, _ => .error none
  | _, [] => .error (some .quote)
  | fuel + 1, c :: cs =>
    let goOn := fun (d : Char) (cs : List Char) => do
      let (s, rest) ← embeddedText quote fuel cs
      return (d :: s, rest)
    let numbered := fun (count : Nat) (cs : List Char) =>
      match (cs.take count).mapM fun d => Text.hexValue? d.toNat with
      | some ds =>
        let n := ds.foldl (16 * · + ·) 0
        if ds.length = count && n.isValidChar then goOn (Char.ofNat n) (cs.drop count)
        else .error none
      | none => .error none
    if c = quote then .ok ([], cs)
    else if c = '\n' || c = '\r' || c = '\x00' then .error none
    else if c = '\\' then
      match cs with
      | 'n' :: cs => goOn '\n' cs
      | 'r' :: cs => goOn '\r' cs
      | 't' :: cs => goOn '\t' cs
      | 'x' :: cs => numbered 2 cs
      | 'u' :: cs => numbered 4 cs
      | 'U' :: cs => numbered 8 cs
      | d :: cs => if d = '\\' || d = '\'' || d = '"' then goOn d cs else .error none
      | [] => .error none
    else goOn c cs

/-- is a character part of a word, or does it open a text? Neither may follow a number or a name at once. -/
def joinsWord (c : Char) : Bool := Text.isWord c || c = '\'' || c = '"'

/-- the words of a statement -/
def embeddedWords : Nat → List Char → Reading (List EmbeddedWord)
  | 0, _ => .error none
  | _, [] => .ok []
  | fuel + 1, c :: cs =>
    if isEmbeddedBlank c then embeddedWords fuel cs
    else if c = '\'' || c = '"' then do
      let (s, rest) ← embeddedText c (cs.length + 1) cs
      if rest.head?.any joinsWord then throw none
      return .text (String.ofList s) :: (← embeddedWords fuel rest)
    else if c.isDigit then do
      let run := (c :: cs).takeWhile Char.isDigit
      let rest := (c :: cs).drop run.length
      if rest.head?.any joinsWord then throw none
      if c = '0' && run.any (· ≠ '0') then throw (some .zeros)
      return .number run :: (← embeddedWords fuel rest)
    else if Text.isNameStart c then do
      let run := (c :: cs).takeWhile Text.isWord
      let rest := (c :: cs).drop run.length
      if rest.head?.any joinsWord || !run.all Text.isPlainWord then throw none
      return .name (String.ofList run) :: (← embeddedWords fuel rest)
    else if (c = '+' || c = '-' || c = '*') && cs.head? = some '=' then do
      return .mark (String.ofList [c, '=']) :: (← embeddedWords fuel cs.tail)
    else do return .mark c.toString :: (← embeddedWords fuel cs)

/-- how many digits a number has that has too many of them -/
def EmbeddedWord.excess? : EmbeddedWord → Option Nat
  | number digits =>
    if maxDigits < digits.length && digits.head? ≠ some '0' then some digits.length else none
  | _ => none

def embeddedConstants : List String := ["True", "False", "None", "__debug__"]

def embeddedReserved : List String :=
  ["and", "as", "assert", "async", "await", "break", "class", "continue", "def", "del", "elif",
    "else", "except", "finally", "for", "from", "global", "if", "import", "in", "is", "lambda",
    "nonlocal", "not", "or", "pass", "raise", "return", "try", "while", "with", "yield"]

def embeddedNumber (digits : List Char) : Int := ofDigits (digits.map fun d => d.toNat - 48)

def readOperand : List EmbeddedWord → Option (EmbeddedExpr × List EmbeddedWord)
  | .number ds :: rest => some (.int (embeddedNumber ds), rest)
  | .mark "-" :: .number ds :: rest => some (.int (-embeddedNumber ds), rest)
  | .text s :: rest => some (.text s, rest)
  | .name s :: rest => if embeddedReserved.contains s then none else some (.name s, rest)
  | _ => none

/-- an expression, one operand or a sum of two, and the words after it -/
def readExpr (ws : List EmbeddedWord) : Option (EmbeddedExpr × List EmbeddedWord) := do
  let (a, rest) ← readOperand ws
  match rest with
  | .mark "+" :: rest =>
    let (b, rest) ← readOperand rest
    return (.sum a b, rest)
  | rest => return (a, rest)

def readLast (ws : List EmbeddedWord) : Option EmbeddedExpr :=
  match readExpr ws with
  | some (e, []) => some e
  | _ => none

/-- the arguments of a call that ends its statement -/
def readArguments : Nat → List EmbeddedWord → Option (List EmbeddedExpr)
  | 0, _ => none
  | _, [.mark ")"] => some []
  | fuel + 1, ws => do
    let (e, rest) ← readExpr ws
    match rest with
    | [.mark ")"] => return [e]
    | .mark "," :: rest => return e :: (← readArguments fuel rest)
    | _ => none

/-- can a name be on the left of an assignment? One that is there and still cannot be bound is a fault of its
own. -/
def bindable (name : String) : Bool :=
  name = "__debug__" || !(embeddedConstants.contains name || embeddedReserved.contains name)

def readStatement (ws : List EmbeddedWord) : Option EmbeddedStmt :=
  match ws with
  | [] => some .skip
  | [.name "pass"] => some .skip
  | .name "print" :: .mark "(" :: rest => (readArguments (rest.length + 1) rest).map .print
  | .name x :: .mark "=" :: rest => if bindable x then (readLast rest).map (.bind x) else none
  | .name x :: .mark "+=" :: rest =>
    if bindable x then (readLast rest).map (.update x .add) else none
  | .name x :: .mark "-=" :: rest =>
    if bindable x then (readLast rest).map (.update x .sub) else none
  | .name x :: .mark "*=" :: rest =>
    if bindable x then (readLast rest).map (.update x .mul) else none
  | ws => (readLast ws).map .drop

/-- the name that a statement of the embedded language binds -/
def EmbeddedStmt.target? : EmbeddedStmt → Option String
  | .bind name _ => some name
  | .update name _ _ => some name
  | _ => none

def EmbeddedStmt.read (s : String) : Reading EmbeddedStmt := do
  let cs := s.toList
  let words ← embeddedWords (cs.length + 1) cs
  match words.findSome? EmbeddedWord.excess?, readStatement words with
  | some count, _ => throw (some (.digits count))
  | none, some statement =>
    if statement.target? = some "__debug__" then throw (some (.constant "__debug__"))
    else return statement
  | none, none => throw none

/-! ## Running -/

/-- the functions of the host that embedded statements know -/
def hostFunctions : List String :=
  ["__build_class__", "__import__", "abs", "aiter", "all", "anext", "any", "ascii", "bin",
    "breakpoint", "callable", "chr", "compile", "delattr", "dir", "divmod", "eval", "exec",
    "format", "getattr", "globals", "hasattr", "hash", "hex", "id", "input", "isinstance",
    "issubclass", "iter", "len", "locals", "max", "min", "next", "oct", "open", "ord", "pow",
    "repr", "round", "setattr", "sorted", "sum", "vars"]

/-- the types of the host that embedded statements know -/
def hostTypes : List String :=
  ["ArithmeticError", "AssertionError", "AttributeError", "BaseException", "BaseExceptionGroup",
    "BlockingIOError", "BrokenPipeError", "BufferError", "BytesWarning", "ChildProcessError",
    "ConnectionAbortedError", "ConnectionError", "ConnectionRefusedError",
    "ConnectionResetError", "DeprecationWarning", "EOFError", "EncodingWarning", "Exception",
    "ExceptionGroup", "FileExistsError", "FileNotFoundError", "FloatingPointError",
    "FutureWarning", "GeneratorExit", "ImportError", "ImportWarning", "IndentationError",
    "IndexError", "InterruptedError", "IsADirectoryError", "KeyError", "KeyboardInterrupt",
    "LookupError", "MemoryError", "ModuleNotFoundError", "NameError", "NotADirectoryError",
    "NotImplementedError", "OSError", "OverflowError", "PendingDeprecationWarning",
    "PermissionError", "ProcessLookupError", "RecursionError", "ReferenceError",
    "ResourceWarning", "RuntimeError", "RuntimeWarning", "StopAsyncIteration", "StopIteration",
    "SyntaxError", "SyntaxWarning", "SystemError", "SystemExit", "TabError", "TimeoutError",
    "TypeError", "UnboundLocalError", "UnicodeDecodeError", "UnicodeEncodeError",
    "UnicodeError", "UnicodeTranslateError", "UnicodeWarning", "UserWarning", "ValueError",
    "Warning", "ZeroDivisionError", "bool", "bytearray", "bytes", "classmethod", "complex",
    "dict", "enumerate", "filter", "float", "frozenset", "int", "list", "map", "memoryview",
    "object", "property", "range", "reversed", "set", "slice", "staticmethod", "str", "super",
    "tuple", "type", "zip"]

/-- the other names of the host, for what is no value here -/
def hostOthers : List String :=
  ["Ellipsis", "NotImplemented", "__builtins__", "__doc__", "__loader__", "__spec__", "copyright", "credits",
    "exit", "help", "license", "quit"]

/-- what a name of the host stands for; two types have a second name -/
def hostNamed? (name : String) : Option Value :=
  if name = "print" then some (.builtin (.host .print))
  else if name = "__name__" then some (.str "builtins")
  else if name = "__package__" then some (.str "")
  else if hostFunctions.contains name then some (.builtin (.host (.function name)))
  else if hostTypes.contains name then some (.builtin (.host (.type name)))
  else if name = "IOError" || name = "EnvironmentError" then some (.builtin (.host (.type "OSError")))
  else none

/-- the variables that embedded statements see -/
abbrev EmbeddedVars := List (String × Value)

/-- a name that is not bound is unknown, or it is one of the host -/
def embeddedMissing (name : String) : Exec Value :=
  if hostOthers.contains name then Exec.giveUp else Exec.fail (.unknownName name)

def embeddedLookup (vars : EmbeddedVars) (name : String) : Exec Value :=
  match name with
  | "True" => pure (.bool true)
  | "False" => pure (.bool false)
  | "None" => pure .null
  | "__debug__" => pure (.bool true)
  | _ => match (vars.lookup name).or (hostNamed? name) with
    | some v => pure v
    | none => embeddedMissing name

def EmbeddedExpr.eval (vars : EmbeddedVars) : EmbeddedExpr → Exec Value
  | .int n => pure (.int n)
  | .text s => pure (.str s)
  | .name s => embeddedLookup vars s
  | .sum a b => do
    let x ← a.eval vars
    Exec.arith .add x (← b.eval vars)

/-- the sign of an operator in the message of an update -/
def updateFault : Fault → Fault
  | .unsupportedOperand op left right => .unsupportedOperand (op ++ "=") left right
  | f => f

/-- the operation of an update; its faults name the operator of the update -/
def updateArith (op : ArithOp) (old v : Value) : Exec Value :=
  tryCatch (Exec.arith op old v) fun
    | .fault f => Exec.fail (updateFault f)
    | signal => throw signal

/-- the new value of a variable after an update. Adding to a list or repeating it changes the list
itself. -/
def updatedValue (op : ArithOp) (old v : Value) : Exec Value := do
  match op, old, v.int? with
  | .add, .list cell, _ =>
    let more ← Exec.items v
    Exec.modifyList cell (· ++ more.toArray)
    return old
  | .mul, .list cell, some _ =>
    match ← Exec.arith .mul old v with
    | .list fresh =>
      Exec.setList cell ((← get).list fresh)
      return old
    | _ => return old
  | _, _, _ => updateArith op old v

/-- print values with blanks between them. Each is written before the next one is looked at. -/
def embeddedPrint : List Value → Exec Unit
  | [] => Exec.write "\n"
  | [v] => do Exec.write ((← Exec.plain v) ++ "\n")
  | v :: vs => do
    Exec.write ((← Exec.plain v) ++ " ")
    embeddedPrint vs

/-- call what the name of the printing function stands for -/
def embeddedCall (f : Value) (values : List Value) : Exec Unit :=
  match f with
  | .builtin (.host .print) => embeddedPrint values
  | .builtin _ => Exec.giveUp
  | v => Exec.fail (.notCallable v.kindName)

/-- the assignment between quotes that the host's function for running a text gets -/
def quotedAssignment? : List EmbeddedExpr → Option (String × EmbeddedExpr)
  | [.text s] =>
    if s.toList.head?.any isEmbeddedBlank then none
    else match EmbeddedStmt.read s with
      | .ok (.bind name e) => some (name, e)
      | _ => none
  | _ => none

def hostExec : Value := .builtin (.host (.function "exec"))

/-- run a statement; the variables after it -/
def EmbeddedStmt.run (vars : EmbeddedVars) : EmbeddedStmt → Exec EmbeddedVars
  | .skip => pure vars
  | .bind name e => do return putAt name (← e.eval vars) vars
  | .update name op e => do
    let old ← embeddedLookup vars name
    return putAt name (← updatedValue op old (← e.eval vars)) vars
  | .drop e => do
    let _ ← e.eval vars
    return vars
  | .print args => do
    let f ← embeddedLookup vars "print"
    let values ← args.mapM (·.eval vars)
    match quotedAssignment? args with
    | some (name, e) =>
      if f = hostExec then return putAt name (← e.eval vars) vars
      else
        embeddedCall f values
        return vars
    | none =>
      embeddedCall f values
      return vars

/-- go on with what was read -/
def Reading.take {α : Type} : Reading α → Exec α
  | .ok a => pure a
  | .error (some flaw) => Exec.fail (.embedded flaw)
  | .error none => Exec.giveUp

def runStatements (vars : EmbeddedVars) : List String → Exec EmbeddedVars
  | [] => pure vars
  | s :: rest => do
    let statement ← Reading.take (EmbeddedStmt.read s)
    runStatements (← statement.run vars) rest

/-- bind variables in a scope, except those that are functions -/
def bindVars (scope : Nat) : EmbeddedVars → Exec Unit
  | [] => pure ()
  | (name, v) :: rest =>
    if v.isCallable then bindVars scope rest
    else do
      Exec.bindName scope name v
      bindVars scope rest

def embeddedTexts (code : String) : List String := (Text.splitOn code ";").map Text.stripLeft

/-- run a block of embedded statements in a scope -/
def runEmbedded (code : String) (scope : Nat) : Exec Value := do
  let vars := ((← get).scope scope).vars.filter fun p => !p.2.isCallable
  let vars ← runStatements vars (embeddedTexts code)
  bindVars scope vars
  return .null

end BraceScript
