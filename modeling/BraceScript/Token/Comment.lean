/-!
# Comments

Comments are cut out of the source before it is split into tokens, wherever their marks stand, also
inside quotes.

* `cutLines`    cuts `//` up to the end of the line
* `cutBlocks`   cuts `/*` up to the next `*/`; an opening mark that is never closed stays
* `cutComments` both, lines first
-/

namespace BraceScript.Token

/-- cut line comments; `inside` says that a comment has begun on this line -/
def cutLines (inside : Bool) : List Char → List Char
  | [] => []
  | c :: cs =>
    if c = '\n' then '\n' :: cutLines false cs
    else if inside || (c = '/' && cs.head? = some '/') then cutLines true cs
    else c :: cutLines false cs

def closes : List Char → Bool
  | [] => false
  | c :: cs => (c = '*' && cs.head? = some '/') || closes cs

inductive BlockPhase
  | code
  | opening
  | comment
  | closing
deriving DecidableEq, Repr

/-- cut block comments, a character at a time -/
def cutBlocks : BlockPhase → List Char → List Char
  | _, [] => []
  | .code, c :: cs =>
    if c = '/' && cs.head? = some '*' && closes cs.tail then cutBlocks .opening cs
    else c :: cutBlocks .code cs
  | .opening, _ :: cs => cutBlocks .comment cs
  | .comment, c :: cs =>
    if c = '*' && cs.head? = some '/' then cutBlocks .closing cs else cutBlocks .comment cs
  | .closing, _ :: cs => cutBlocks .code cs

/-- cut line comments, then block comments -/
def cutComments (cs : List Char) : List Char := cutBlocks .code (cutLines false cs)

end BraceScript.Token
