import BraceScript.Text.Printable

/-!
# Quoted text

Text as it is shown inside a list, in a dictionary or in a message: in single quotes, or in double
quotes when it holds a single quote and no double one. A backslash and the quote mark are escaped,
and so is every character that is not printable.

* `quoted`   the quoted form of a text
-/

namespace BraceScript.Text

/-- a hexadecimal number of at least `width` digits -/
def hex (width n : Nat) : List Char :=
  let ds := Nat.toDigits 16 n
  List.replicate (width - ds.length) '0' ++ ds

def quoteMark (cs : List Char) : Char :=
  if cs.contains '\'' && !cs.contains '"' then '"' else '\''

def escapeChar (mark c : Char) : List Char :=
  if c = mark || c = '\\' then ['\\', c]
  else if c = '\n' then ['\\', 'n']
  else if c = '\r' then ['\\', 'r']
  else if c = '\t' then ['\\', 't']
  else if isPrintable c then [c]
  else
    let n := c.toNat
    if n < 256 then '\\' :: 'x' :: hex 2 n
    else if n < 65536 then '\\' :: 'u' :: hex 4 n
    else '\\' :: 'U' :: hex 8 n

/-- the quoted form of a text -/
def quoted (s : String) : String :=
  let cs := s.toList
  let mark := quoteMark cs
  String.ofList (mark :: cs.flatMap (escapeChar mark) ++ [mark])

end BraceScript.Text
