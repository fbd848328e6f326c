import BraceScript.Number.Double
import BraceScript.Text.Digit

/-!
# Reading numbers from text

Numbers may be surrounded by blanks, carry a sign, use the decimal digits of any script and single
underscores between digits.

* `readInt`      an integer, with a limit on the number of its digits
* `readDouble?`  a double: digits with a point and an exponent, or one of the special names
-/

namespace BraceScript

/-- integers of more digits than this are neither read from text nor written to it -/
def maxDigits : Nat := 4300

inductive IntReadError
  | malformed
  | tooLong (digits : Nat)
deriving DecidableEq, Repr

/-- the characters of a text without the blanks around it -/
def trimBlanks (cs : List Char) : List Char :=
  ((cs.dropWhile Text.isBlank).reverse.dropWhile Text.isBlank).reverse

def splitSign : List Char → Bool × List Char
  | '-' :: cs => (true, cs)
  | '+' :: cs => (false, cs)
  | cs => (false, cs)

/-- digit values of a run of digits with single underscores between them; `fresh` says that the
last character was a digit -/
def digitRun (fresh : Bool) : List Char → Option (List Nat)
  | [] => if fresh then some [] else none
  | '_' :: cs => if fresh then digitRun false cs else none
  | c :: cs => match Text.digitValue? c with
    | some d => (digitRun true cs).map (d :: ·)
    | none => none

def ofDigits (ds : List Nat) : Nat := ds.foldl (fun n d => 10 * n + d) 0

def readInt (s : String) : Except IntReadError Int :=
  let (negative, body) := splitSign (trimBlanks s.toList)
  match digitRun false body with
  | none => .error .malformed
  | some ds =>
    if maxDigits < ds.length then .error (.tooLong ds.length)
    else
      let n : Int := ofDigits ds
      .ok (if negative then -n else n)

/-- is every digit of the run followed by a digit or by the end, underscores standing between
digits only? The empty run is allowed. -/
def optionalRun (cs : List Char) : Option (List Nat) :=
  if cs.isEmpty then some [] else digitRun false cs

/-- the double nearest to `digits * 10 ^ exponent` -/
def decimalValue (negative : Bool) (digits : List Nat) (exponent : Int) : Double :=
  let ds := digits.dropWhile (· = 0)
  let n := ofDigits ds
  let top := exponent + ds.length
  if n = 0 then Double.signedZero negative
  else if 400 < top then .infinity negative
  else if top < -400 then Double.signedZero negative
  else if 0 ≤ exponent then Double.ofRatio negative (n * Nat.pow 10 exponent.toNat) 1
  else Double.ofRatio negative n (Nat.pow 10 (-exponent).toNat)

def splitExponent (cs : List Char) : List Char × Option (List Char) :=
  let mark := fun (c : Char) => c != 'e' && c != 'E'
  match cs.dropWhile mark with
  | [] => (cs, none)
  | _ :: rest => (cs.takeWhile mark, some rest)

def splitPoint (cs : List Char) : List Char × Option (List Char) :=
  match cs.dropWhile (· != '.') with
  | [] => (cs, none)
  | _ :: rest => (cs.takeWhile (· != '.'), some rest)

/-- the exponent part of a number: a sign and digits -/
def readExponent : Option (List Char) → Option Int
  | none => some 0
  | some cs =>
    let (negative, body) := splitSign cs
    (digitRun false body).map fun ds =>
      let n : Int := ofDigits ds
      if negative then -n else n

/-- read the digits, point and exponent of a number without its sign -/
def readMagnitude (negative : Bool) (cs : List Char) : Option Double := do
  let (mantissa, power) := splitExponent cs
  let (whole, frac) := splitPoint mantissa
  let e ← readExponent power
  let ws ← optionalRun whole
  let fs ← optionalRun (frac.getD [])
  if ws.isEmpty && fs.isEmpty then none
  else some (decimalValue negative (ws ++ fs) (e - fs.length))

def readDouble? (s : String) : Option Double :=
  let (negative, body) := splitSign (trimBlanks s.toList)
  let word := String.ofList (body.map Char.toLower)
  if word = "inf" || word = "infinity" then some (.infinity negative)
  else if word = "nan" then some .nan
  else readMagnitude negative body

end BraceScript
