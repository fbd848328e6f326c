import BraceScript.Eval.Arithmetic
import BraceScript.Eval.Sequence
import BraceScript.Number.Reading
import BraceScript.Text.Escape

/-!
# Builtin functions

Those that do not call other functions.

* `Exec.printValues`, `Exec.printFormatted`, `Exec.readInput`   output and input
* `Exec.toInt`, `Exec.toFloat`, `Exec.toDict`, ...   conversions
-/

namespace BraceScript

namespace Exec

def argument (args : List Value) (i : Nat) : Exec Value :=
  match args[i]? with
  | some v => pure v
  | none => fail (.indexRange "list")

/-- print values, separated by blanks -/
def printValues (args : List Value) : Exec Value := do
  let texts ← args.mapM shown
  write (" ".intercalate texts ++ "\n")
  return .null

/-- the end of formatted output, with its escapes read -/
def printEnd (v : Value) : Exec String :=
  match v with
  | .str s =>
    match Text.unescape s with
    | .ok (some t) => pure t
    | .ok none => giveUp
    | .error e => fail (.decodeEscape e.start e.stop e.byte e.reason)
  | v => fail (.decodeType v.kindName)

/-- print values with a separator and an end, which are the last two arguments; a single argument is
the end -/
def printFormatted (args : List Value) : Exec Value := do
  let count := args.length
  let values := args.take (count - 2)
  let sep := if 2 ≤ count then args.getD (count - 2) .null else .str " "
  let last := if 1 ≤ count then args.getD (count - 1) .null else .str "\n"
  let ending ← printEnd last
  match sep with
  | .str sep =>
    let texts ← values.mapM plain
    write (sep.intercalate texts ++ ending)
    return .null
  | v => fail (.lacksAttribute v.kindName "join")

/-- is a line a number with digits on both sides of a point? -/
def isDecimal (cs : List Char) : Bool :=
  let cs := if cs.head? = some '-' then cs.tail else cs
  let whole := cs.takeWhile Text.isDigit
  match cs.drop whole.length with
  | '.' :: frac => !whole.isEmpty && !frac.isEmpty && frac.all Text.isDigit
  | _ => false

def inputLine : Exec String := do
  match (← get).input with
  | [] => fail .endOfInput
  | line :: rest =>
    modify fun w => { w with input := rest }
    return line

/-- the value of a line of input; a number with a point becomes a double -/
def inputValue (line : String) : Exec Value :=
  if isDecimal line.toList then
    match readDouble? line with
    | some x => newDouble x
    | none => pure (.str line)
  else pure (.str line)

def readInput (args : List Value) : Exec Value := do
  match args with
  | [] => pure ()
  | [prompt] => write (← plain prompt)
  | args => fail (.inputArity args.length)
  inputValue (← inputLine)

def integerArgument (v : Value) : Exec Int :=
  match v.int? with
  | some n => pure n
  | none => fail (.notInteger v.kindName)

def makeRange (start stop step : Int) : Exec Value := do
  if step = 0 then fail .zeroRangeStep
  let count := rangeCount start stop step
  if maxSize < count then fail .countOverflow
  if Nat.pow 2 40 < count then fail .outOfMemory
  newList ((rangeItems start stop step).map Value.int).toArray

/-- a range from zero, between two numbers, or with a step -/
def toRange (args : List Value) : Exec Value := do
  match args with
  | [stop] => makeRange 0 (← integerArgument stop) 1
  | [start, stop] =>
    let start ← integerArgument start
    makeRange start (← integerArgument stop) 1
  | [start, stop, step] =>
    let start ← integerArgument start
    let stop ← integerArgument stop
    makeRange start stop (← integerArgument step)
  | _ => fail .rangeArity

def toInt (v : Value) : Exec Value :=
  match v with
  | .str s =>
    match readInt s with
    | .ok n => pure (.int n)
    | .error .malformed => fail (.badInteger s)
    | .error (.tooLong digits) => fail (.longInteger digits)
  | v => match v.numeric? with
    | some (.int n) => pure (.int n)
    | some (.real x) =>
      match x.truncate with
      | some n => pure (.int n)
      | none => if x.isNaN then fail .nanToInt else fail .infinityToInt
    | none => fail (.intFrom v.kindName)

def toFloat (v : Value) : Exec Value := do
  match v with
  | .float x => return .float x
  | .nan id => return .nan id
  | .str s =>
    match readDouble? s with
    | some x => newDouble x
    | none => fail (.badNumber s)
  | v => match v.numeric? with
    | some x => newDouble (← ofExcept x.toDouble)
    | none => fail (.floatFrom v.kindName)

/-- put pairs into a dictionary, counting them -/
def putPairs (d : Dict) : Nat → List Value → Exec Dict
  | _, [] => pure d
  | n, v :: rest => do
    match ← itemsOr (.dictElement n) v with
    | [key, value] =>
      checkKey key
      putPairs (d.insert key value) (n + 1) rest
    | parts => fail (.dictElementLength n parts.length)

/-- a dictionary copied, or made of pairs -/
def toDict (v : Value) : Exec Value := do
  match v with
  | .dict cell => newDict ((← get).dict cell)
  | v => newDict (← putPairs .empty 0 (← items v))

def toCharacter (v : Value) : Exec Value := do
  let n ← integerArgument v
  if n < -(Int.pow 2 31) || Int.pow 2 31 ≤ n then fail .wordOverflow
  else if n < 0 || 0x110000 ≤ n then fail .characterRange
  else return .str (← character n.toNat)

def toOrdinal (v : Value) : Exec Value :=
  match v with
  | .str s =>
    match s.toList with
    | [c] => pure (.int c.toNat)
    | cs => fail (.characterLength cs.length)
  | v => fail (.characterType v.kindName)

/-- open a file, for reading unless a mode is given; a file is a dictionary that holds it -/
def toFile (args : List Value) : Exec Value := do
  let file ←
    match args with
    | [path] => openFile path (.str "r")
    | [path, mode] => openFile path mode
    | _ => fail .openArity
  newDict ⟨[(.str "__type__", .str "__file__"), (.str "__file__", file)]⟩

end Exec

end BraceScript
