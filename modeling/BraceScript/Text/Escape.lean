/-!
# Escapes in text

A backslash and the characters after it stand for one character: a control character by its
letter, or any character by its octal or hexadecimal number. Text is read byte by byte, and each
byte that is part of no escape stands for the character of its number. Two things are not followed: a
character that is given by its name, and half of a surrogate pair, which is no character here.

* `EscapeError`   where and why a text cannot be read
* `unescape`      the text that the bytes of a text stand for, if it can be followed
-/

namespace BraceScript.Text

/-- where and why escapes cannot be read: the bytes from `start` up to `stop` -/
structure EscapeError where
  start : Nat
  stop : Nat
  byte : Nat
  reason : String
deriving DecidableEq, Repr

def hexValue? (b : Nat) : Option Nat :=
  if 48 ≤ b && b ≤ 57 then some (b - 48)
  else if 97 ≤ b && b ≤ 102 then some (b - 87)
  else if 65 ≤ b && b ≤ 70 then some (b - 55)
  else none

/-- up to `count` hexadecimal digits: how many there are and the number they write -/
def hexRun : Nat → Nat → List Nat → Nat × Nat
  | 0, n, _ => (0, n)
  | _, n, [] => (0, n)
  | count + 1, n, b :: bs =>
    match hexValue? b with
    | some d =>
      let (k, m) := hexRun count (16 * n + d) bs
      (k + 1, m)
    | none => (0, n)

/-- up to `count` octal digits: how many there are and the number they write -/
def octalRun : Nat → Nat → List Nat → Nat × Nat
  | 0, n, _ => (0, n)
  | _, n, [] => (0, n)
  | count + 1, n, b :: bs =>
    if 48 ≤ b && b ≤ 55 then
      let (k, m) := octalRun count (8 * n + (b - 48)) bs
      (k + 1, m)
    else (0, n)

/-- the character of a letter after a backslash -/
def controlLetter? (b : Nat) : Option Nat :=
  match Char.ofNat b with
  | '\\' => some 92
  | '\'' => some 39
  | '"' => some 34
  | 'a' => some 7
  | 'b' => some 8
  | 'f' => some 12
  | 'n' => some 10
  | 'r' => some 13
  | 't' => some 9
  | 'v' => some 11
  | _ => none

/-- what an escape gives: characters, and how many bytes it takes after the backslash -/
def escape (start : Nat) : List Nat → Except EscapeError (Option (List Nat × Nat))
  | [] => .error ⟨start, start + 1, 92, "\\ at end of string"⟩
  | b :: bs =>
    if b = 10 then .ok (some ([], 1))
    else match controlLetter? b with
      | some n => .ok (some ([n], 1))
      | none =>
        let numbered := fun (count : Nat) (reason : String) =>
          let (k, n) := hexRun count 0 bs
          if k < count then .error ⟨start, start + 2 + k, 92, reason⟩
          else if 0x110000 ≤ n then .error ⟨start, start + 2 + k, 92, "illegal Unicode character"⟩
          else .ok (some ([n], 1 + k))
        if b = 120 then numbered 2 "truncated \\xXX escape"
        else if b = 117 then numbered 4 "truncated \\uXXXX escape"
        else if b = 85 then numbered 8 "truncated \\UXXXXXXXX escape"
        else if b = 78 then
          match bs with
          | 123 :: name =>
            let inner := name.takeWhile (· ≠ 125)
            if inner.length = name.length then
              .error ⟨start, start + 3 + inner.length, 92, "malformed \\N character escape"⟩
            else if inner.isEmpty then
              .error ⟨start, start + 3, 92, "malformed \\N character escape"⟩
            else .ok none
          | _ => .error ⟨start, start + 2, 92, "malformed \\N character escape"⟩
        else
          let (k, n) := octalRun 3 0 (b :: bs)
          if 0 < k then .ok (some ([n], k)) else .ok (some ([92, b], 1))

/-- the characters that bytes stand for; the first `skip` bytes belong to the last escape -/
def unescapeFrom (skip position : Nat) : List Nat → Except EscapeError (Option (List Nat))
  | [] => .ok (some [])
  | b :: bs =>
    match skip with
    | n + 1 => unescapeFrom n (position + 1) bs
    | 0 =>
      if b = 92 then
        match escape position bs with
        | .error e => .error e
        | .ok none => .ok none
        | .ok (some (cs, k)) =>
          match unescapeFrom k (position + 1) bs with
          | .error e => .error e
          | .ok rest => .ok (rest.map (cs ++ ·))
      else
        match unescapeFrom 0 (position + 1) bs with
        | .error e => .error e
        | .ok rest => .ok (rest.map (b :: ·))

/-- the text that the bytes of a text stand for -/
def unescape (s : String) : Except EscapeError (Option String) :=
  match unescapeFrom 0 0 (s.toUTF8.toList.map UInt8.toNat) with
  | .error e => .error e
  | .ok none => .ok none
  | .ok (some cs) =>
    .ok (if cs.all fun n => n.isValidChar then some (String.ofList (cs.map Char.ofNat)) else none)

end BraceScript.Text
