import BraceScript.Text.Digit

/-!
# Cutting text into parts

* `splitOn`      the parts between separators
* `splitBlanks`  the parts between runs of blanks
* `strip`        a text without the blanks around it
* `holds`        is a text part of another one?
* `lines`        the lines of a text, each with its line feed
-/

namespace BraceScript.Text

/-- the parts of a text between separators, which are not empty; the first `skip` characters
belong to the last separator -/
def splitFrom (sep : List Char) (skip : Nat) : List Char → List (List Char)
  | [] => [[]]
  | c :: cs =>
    match skip with
    | n + 1 => splitFrom sep n cs
    | 0 =>
      if sep.isPrefixOf (c :: cs) then [] :: splitFrom sep (sep.length - 1) cs
      else match splitFrom sep 0 cs with
        | [] => [[c]]
        | p :: ps => (c :: p) :: ps

/-- the parts of a text between separators -/
def splitOn (s sep : String) : List String :=
  (splitFrom sep.toList 0 s.toList).map String.ofList

/-- the parts between blanks, some of them empty -/
def partsBetween : List Char → List (List Char)
  | [] => [[]]
  | c :: cs =>
    if isBlank c then [] :: partsBetween cs
    else match partsBetween cs with
      | [] => [[c]]
      | p :: ps => (c :: p) :: ps

def splitBlanks (s : String) : List String :=
  ((partsBetween s.toList).filter (!·.isEmpty)).map String.ofList

def stripLeft (s : String) : String := String.ofList (s.toList.dropWhile isBlank)

def strip (s : String) : String :=
  String.ofList ((s.toList.dropWhile isBlank).reverse.dropWhile isBlank).reverse

def holds (part : List Char) : List Char → Bool
  | [] => part.isEmpty
  | c :: cs => part.isPrefixOf (c :: cs) || holds part cs

/-- the first line of a text, with its line feed, and what follows -/
def firstLine : List Char → List Char × List Char
  | [] => ([], [])
  | c :: cs =>
    if c = '\n' then (['\n'], cs)
    else
      let (line, rest) := firstLine cs
      (c :: line, rest)

/-- the lines of a text, each with its line feed -/
def lines : List Char → List (List Char)
  | [] => []
  | c :: cs =>
    if c = '\n' then ['\n'] :: lines cs
    else match lines cs with
      | [] => [[c]]
      | l :: ls => (c :: l) :: ls

end BraceScript.Text
