import BraceScript.Eval.Display
import BraceScript.Eval.Equality

/-!
# Format templates

A text with directives: a percent sign, a key in parentheses, flags, a width, a precision and a
conversion letter. Each directive is replaced by the text of the next argument, or of the entry
under its key.

* `Directive`             the parts of a directive
* `Directive.padText`, `Directive.padNumber`   a converted argument at its width
* `Exec.formatTemplate`   the template filled in
-/

namespace BraceScript

/-- the parts of a directive before its conversion letter -/
structure Directive where
  left : Bool
  plus : Bool
  blank : Bool
  alternate : Bool
  zero : Bool
  width : Nat
  precision : Option Nat

namespace Directive

/-- the directive without any parts -/
def plain : Directive := ⟨false, false, false, false, false, 0, none⟩

def flags (d : Directive) : List Char → Directive × List Char
  | [] => (d, [])
  | c :: cs =>
    if c = '-' then flags { d with left := true } cs
    else if c = '+' then flags { d with plus := true } cs
    else if c = ' ' then flags { d with blank := true } cs
    else if c = '#' then flags { d with alternate := true } cs
    else if c = '0' then flags { d with zero := true } cs
    else (d, c :: cs)

/-- a text with blanks around it up to the width -/
def padText (d : Directive) (s : String) : String :=
  let fill := String.ofList (List.replicate (d.width - s.length) ' ')
  if d.left then s ++ fill else fill ++ s

def sign (d : Directive) (negative : Bool) : String :=
  if negative then "-" else if d.plus then "+" else if d.blank then " " else ""

/-- a number with zeros after its sign and mark, or blanks around it, up to the width -/
def padNumber (d : Directive) (sign mark body : String) : String :=
  let missing := d.width - (sign.length + mark.length + body.length)
  if d.zero && !d.left then
    sign ++ mark ++ String.ofList (List.replicate missing '0') ++ body
  else d.padText (sign ++ mark ++ body)

/-- an integer in decimal, octal or hexadecimal digits -/
def integer (d : Directive) (letter : Char) (n : Int) : Except Fault String := do
  let digits ←
    if letter = 'x' then pure (Nat.toDigits 16 n.natAbs)
    else if letter = 'X' then pure ((Nat.toDigits 16 n.natAbs).map Char.toUpper)
    else if letter = 'o' then pure (Nat.toDigits 8 n.natAbs)
    else if n.natAbs < Nat.pow 10 maxDigits then pure (Nat.toDigits 10 n.natAbs)
    else throw .tooManyDigits
  let digits := Double.padZeros (d.precision.getD 0) digits
  let mark := if !d.alternate then "" else if letter = 'x' then "0x" else if letter = 'X' then "0X"
    else if letter = 'o' then "0o" else ""
  return d.padNumber (d.sign (n < 0)) mark (String.ofList digits)

/-- drop zeros at the end of a fraction, and its point when nothing is left of it -/
def dropFraction (s : String) : String :=
  if s.toList.contains '.' then
    let cs := s.toList.reverse.dropWhile (· = '0')
    String.ofList ((if cs.head? = some '.' then cs.tail else cs).reverse)
  else s

/-- put a point before the exponent or at the end, if there is none -/
def withPoint (s : String) : String :=
  let cs := s.toList
  if cs.contains '.' then s
  else String.ofList (cs.takeWhile (· ≠ 'e') ++ '.' :: cs.dropWhile (· ≠ 'e'))

/-- drop zeros at the end of the fraction of a number with an exponent -/
def dropFractionBeforeExponent (s : String) : String :=
  let cs := s.toList
  dropFraction (String.ofList (cs.takeWhile (· ≠ 'e'))) ++ String.ofList (cs.dropWhile (· ≠ 'e'))

/-- a magnitude with a given number of significant digits, by place or by exponent -/
def general (alternate : Bool) (m : Nat) (e : Int) (precision : Nat) : String :=
  let count := if precision = 0 then 1 else precision
  let (_, top) := Double.significant m e count
  if -4 ≤ top && top < count then
    let s := Double.fixed m e (count - 1 - top).toNat
    if alternate then withPoint s else dropFraction s
  else
    let s := Double.scientific m e (count - 1)
    if alternate then withPoint s else dropFractionBeforeExponent s

/-- the magnitude of a finite double under a conversion letter in lower case -/
def magnitude (d : Directive) (letter : Char) (m : Nat) (e : Int) : String :=
  let precision := d.precision.getD 6
  if letter = 'f' then
    let s := Double.fixed m e precision
    if d.alternate then withPoint s else s
  else if letter = 'e' then
    let s := Double.scientific m e precision
    if d.alternate then withPoint s else s
  else general d.alternate m e precision

def double (d : Directive) (letter : Char) (x : Double) : String :=
  let body := match x with
    | .nan => "nan"
    | .infinity _ => "inf"
    | .finite _ m e => d.magnitude letter.toLower m e
  let body := if letter.isUpper then String.ofList (body.toList.map Char.toUpper) else body
  d.padNumber (d.sign x.isNegative) "" body

end Directive

def asciiOnly (s : String) : String :=
  String.ofList (s.toList.flatMap fun c =>
    if c.toNat < 128 then [c]
    else if c.toNat < 256 then '\\' :: 'x' :: Text.hex 2 c.toNat
    else if c.toNat < 65536 then '\\' :: 'u' :: Text.hex 4 c.toNat
    else '\\' :: 'U' :: Text.hex 8 c.toNat)

/-- the arguments of a template: those left, and the collection that keys are looked up in -/
structure TemplateArgs where
  items : List Value
  mapping : Option Value

/-- a key up to the parenthesis that closes it, and what follows -/
def templateKey (depth : Nat) : List Char → Option (List Char × List Char)
  | [] => none
  | c :: cs =>
    if c = ')' && depth ≤ 1 then some ([], cs)
    else
      let depth := if c = ')' then depth - 1 else if c = '(' then depth + 1 else depth
      (templateKey depth cs).map fun (key, rest) => (c :: key, rest)

/-- a number in decimal digits and what follows -/
def templateNumber (cs : List Char) : Nat × List Char :=
  (ofDigits ((cs.takeWhile Char.isDigit).map fun c => c.toNat - 48), cs.dropWhile Char.isDigit)

namespace Exec

/-- the next argument and the arguments after it -/
def nextArgument (args : TemplateArgs) : Exec (Value × TemplateArgs) :=
  match args.items with
  | [] => fail .formatCount
  | v :: rest => pure (v, { args with items := rest })

/-- the next argument, which must be an integer -/
def nextInteger (args : TemplateArgs) : Exec (Int × TemplateArgs) := do
  let (v, args) ← nextArgument args
  match v.int? with
  | some n => return (n, args)
  | none => fail .formatStar

def templateEntry (args : TemplateArgs) (key : String) : Exec Value := do
  match args.mapping with
  | none => fail .formatMapping
  | some (.dict cell) =>
    match ← findKey cell (.str key) with
    | some v => return v
    | none => fail (.missingKey (.str key))
  | some v => fail (.indexType v.kindName "str")

/-- a value as an integer for a decimal conversion -/
def decimalInteger (letter : Char) (v : Value) : Exec Int :=
  match v.numeric? with
  | some (.int n) => pure n
  | some (.real x) =>
    match x.truncate with
    | some n => pure n
    | none => if x.isNaN then fail .nanToInt else fail .infinityToInt
  | none => fail (.formatReal letter v.kindName)

def formatDouble (v : Value) : Exec Double :=
  match v.numeric? with
  | some (.int n) =>
    let x := Double.ofInt n
    if x.isInfinite then fail .intTooLarge else pure x
  | some (.real x) => pure x
  | none => fail (.formatFloat v.kindName)

def formatCharacter (v : Value) : Exec String :=
  match v with
  | .str s => if s.length = 1 then pure s else fail .formatChar
  | v => match v.int? with
    | none => fail .formatChar
    | some n =>
      if n < 0 || 0x110000 ≤ n then fail .formatCharRange
      else character n.toNat

def convert (d : Directive) (letter : Char) (position : Nat) (v : Value) : Exec String := do
  if letter = 's' || letter = 'r' || letter = 'a' then
    let s ← if letter = 's' then plain v else shown v
    let s := if letter = 'a' then asciiOnly s else s
    let s := match d.precision with
      | some p => String.ofList (s.toList.take p)
      | none => s
    return d.padText s
  else if letter = 'd' || letter = 'i' || letter = 'u' then
    ofExcept (d.integer letter (← decimalInteger letter v))
  else if letter = 'x' || letter = 'X' || letter = 'o' then
    match v.int? with
    | some n => ofExcept (d.integer letter n)
    | none => fail (.formatInteger letter v.kindName)
  else if letter.toLower = 'e' || letter.toLower = 'f' || letter.toLower = 'g' then
    return d.double letter (← formatDouble v)
  else if letter = 'c' then return d.padText (← formatCharacter v)
  else fail (.formatUnknown letter position)

def templateWidth (d : Directive) (args : TemplateArgs) (cs : List Char) :
    Exec (Directive × TemplateArgs × List Char) := do
  match cs with
  | '*' :: rest =>
    let (n, args) ← nextInteger args
    if n < -(Int.pow 2 63) || Int.pow 2 63 ≤ n then fail .countOverflow
    let d := if n < 0 then { d with left := true } else d
    return ({ d with width := n.natAbs }, args, rest)
  | cs =>
    let (n, rest) := templateNumber cs
    if Nat.pow 2 63 ≤ n then fail .formatWidth
    return ({ d with width := n }, args, rest)

/-- the precision of a directive, if it has one -/
def templatePrecision (d : Directive) (args : TemplateArgs) (cs : List Char) :
    Exec (Directive × TemplateArgs × List Char) := do
  match cs with
  | '.' :: '*' :: rest =>
    let (n, args) ← nextInteger args
    if n < -(Int.pow 2 31) || Int.pow 2 31 ≤ n then fail .wordOverflow
    return ({ d with precision := some n.toNat }, args, rest)
  | '.' :: rest =>
    let (n, rest) := templateNumber rest
    if Nat.pow 2 31 ≤ n then fail .formatPrecision
    return ({ d with precision := some n }, args, rest)
  | cs => return (d, args, cs)

/-- drop one letter that gives the size of a number -/
def dropSize : List Char → List Char
  | [] => []
  | c :: cs => if c = 'h' || c = 'l' || c = 'L' then cs else c :: cs

/-- the arguments of a directive, which may begin with the key of its only one, and what follows the key -/
def keyedArguments (args : TemplateArgs) (cs : List Char) : Exec (TemplateArgs × List Char) := do
  match cs with
  | '(' :: rest =>
    if args.mapping.isNone then fail .formatMapping
    match templateKey 1 rest with
    | none => fail .formatKeyIncomplete
    | some (key, rest) =>
      let v ← templateEntry args (String.ofList key)
      return ({ args with items := [v] }, rest)
  | cs => return (args, cs)

/-- a directive after its percent sign; `size` is the length of the whole template -/
def formatDirective (size : Nat) (args : TemplateArgs) (cs : List Char) :
    Exec (String × TemplateArgs × List Char) := do
  let (args, cs) ← keyedArguments args cs
  let (d, cs) := Directive.plain.flags cs
  let (d, args, cs) ← templateWidth d args cs
  let (d, args, cs) ← templatePrecision d args cs
  match dropSize cs with
  | [] => fail .formatIncomplete
  | letter :: rest =>
    let (v, args) ← nextArgument args
    let s ← convert d letter (size - rest.length - 1) v
    return (s, args, rest)

def formatFrom (size : Nat) : Nat → TemplateArgs → List Char → Exec String
  | 0, _, _ => throw .exhausted
  | fuel + 1, args, cs => do
    let literal := String.ofList (cs.takeWhile (· ≠ '%'))
    match cs.dropWhile (· ≠ '%') with
    | [] =>
      if args.mapping.isNone && !args.items.isEmpty then fail .formatExcess
      return literal
    | _ :: '%' :: rest => return literal ++ "%" ++ (← formatFrom size fuel args rest)
    | _ :: rest =>
      let (s, args, rest) ← formatDirective size args rest
      return literal ++ s ++ (← formatFrom size fuel args rest)

/-- fill in a template with a value: the items of a tuple, or the value alone, whose entries can
also be named by keys -/
def formatTemplate (template : String) (v : Value) : Exec String := do
  let args : TemplateArgs ←
    match v with
    | .tuple cell => pure ⟨(← get).tuple cell, none⟩
    | .dict _ => pure ⟨[v], some v⟩
    | .list _ => pure ⟨[v], some v⟩
    | _ => pure ⟨[v], none⟩
  formatFrom template.length (template.length + 1) args template.toList

end Exec

end BraceScript
