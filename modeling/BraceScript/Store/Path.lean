/-!
# Paths

Paths are texts with slashes between their parts.

* `Path.directory`   the part before the last slash
* `Path.join`        a path below a directory
* `Path.normal`      a path without empty parts, `.` and inner `..`
-/

namespace BraceScript.Path

def parts (cs : List Char) : List (List Char) :=
  match cs with
  | [] => [[]]
  | c :: cs =>
    if c = '/' then [] :: parts cs
    else match parts cs with
      | [] => [[c]]
      | p :: ps => (c :: p) :: ps

/-- the part of a path before its last slash -/
def directory (path : String) : String :=
  let head := (path.toList.reverse.dropWhile (· ≠ '/'))
  if head.all (· = '/') then String.ofList head
  else String.ofList (head.dropWhile (· = '/')).reverse

def join (dir path : String) : String :=
  if path.startsWith "/" then path
  else if dir.isEmpty || dir.endsWith "/" then dir ++ path
  else dir ++ "/" ++ path

/-- take the parts of a path, with those kept so far in reverse order -/
def normalParts (rooted : Bool) (kept : List (List Char)) : List (List Char) → List (List Char)
  | [] => kept.reverse
  | p :: ps =>
    if p = [] || p = ['.'] then normalParts rooted kept ps
    else if p ≠ ['.', '.'] then normalParts rooted (p :: kept) ps
    else match kept with
      | [] => if rooted then normalParts rooted [] ps else normalParts rooted [p] ps
      | k :: ks =>
        if k = ['.', '.'] then normalParts rooted (p :: k :: ks) ps else normalParts rooted ks ps

/-- how many slashes a normal path begins with: two only when there are exactly two -/
def leadingSlashes (cs : List Char) : Nat :=
  match (cs.takeWhile (· = '/')).length with
  | 0 => 0
  | 2 => 2
  | _ => 1

/-- a path without empty parts, `.` and inner `..` -/
def normal (path : String) : String :=
  let cs := path.toList
  let slashes := leadingSlashes cs
  let kept := normalParts (slashes ≠ 0) [] (parts cs)
  let text := String.ofList (List.replicate slashes '/') ++
    "/".intercalate (kept.map String.ofList)
  if text.isEmpty then "." else text

end BraceScript.Path
