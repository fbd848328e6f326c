import BraceScript.Fault
import BraceScript.Store.Path

/-!
# The files that a program sees

Files with their texts below one directory. Their directories are those that hold a file.

* `Disk.locate`   what stands at a path
* `Disk.read?`, `Disk.write`   the text of a file
* `lineEnds`      a text with every line end as a line feed
-/

namespace BraceScript

/-- files and their texts, by paths without `.` and `..` -/
structure Disk where
  files : List (String × String)
deriving Inhabited

inductive Place
  | file (key : String)
  | directory
  /-- nothing, but a file can be made there -/
  | vacant (key : String)
  /-- nothing, in a directory that is not there -/
  | missing
  /-- nothing, where the path names a directory -/
  | missingDirectory
  /-- below something that is no directory -/
  | notDirectory
deriving DecidableEq, Repr

namespace Disk

/-- the text of a file -/
def read? (d : Disk) (key : String) : Option String := d.files.lookup key

/-- put a text under a key: a key that is there keeps its place -/
def writeIn (key text : String) : List (String × String) → List (String × String)
  | [] => [(key, text)]
  | (k, t) :: rest => if k = key then (k, text) :: rest else (k, t) :: writeIn key text rest

def write (d : Disk) (key text : String) : Disk := ⟨writeIn key text d.files⟩

/-- the key of a file by the parts of its path -/
def keyOf (parts : List (List Char)) : String := "/".intercalate (parts.map String.ofList)

def isFile (d : Disk) (key : String) : Bool := d.files.any fun (k, _) => k = key

def isDirectory (d : Disk) (key : String) : Bool :=
  d.files.any fun (k, _) => (key ++ "/").toList.isPrefixOf k.toList

/-- follow the parts of a path from a directory, which is given by its parts in reverse order;
`none` is a directory outside -/
def follow (d : Disk) : Option (List (List Char)) → List (List Char) → Place
  | _, [] => .directory
  | none, p :: ps =>
    if p = [] || p = ['.'] || p = ['.', '.'] then follow d none ps else .missing
  | some dir, p :: ps =>
    if p = [] || p = ['.'] then follow d (some dir) ps
    else if p = ['.', '.'] then
      match dir with
      | [] => follow d none ps
      | _ :: up => follow d (some up) ps
    else
      let key := keyOf (p :: dir).reverse
      if d.isFile key then (if ps.isEmpty then .file key else .notDirectory)
      else if d.isDirectory key then follow d (some (p :: dir)) ps
      else if ps.isEmpty then .vacant key
      else if ps.all (·.isEmpty) then .missingDirectory
      else .missing

def locate (d : Disk) (path : String) : Place :=
  if path.isEmpty || path.startsWith "/" then .missing
  else follow d (some []) (Path.parts path.toList)

/-- is there a file or a directory at a path? -/
def pathExists (d : Disk) (path : String) : Bool :=
  match d.locate path with
  | .file _ => true
  | .directory => true
  | _ => false

def pathIsFile (d : Disk) (path : String) : Bool :=
  match d.locate path with
  | .file _ => true
  | _ => false

def toRead (d : Disk) (path : String) : Except Fault String :=
  if path.toList.contains '\x00' then .error .nullInPath
  else match d.locate path with
    | .file key => .ok key
    | .directory => .error (.path .isDirectory path)
    | .notDirectory => .error (.path .notDirectory path)
    | _ => .error (.path .missing path)

/-- the key of a file that is to be written, and whether it is there -/
def toWrite (d : Disk) (path : String) : Except Fault (String × Bool) :=
  if path.toList.contains '\x00' then .error .nullInPath
  else match d.locate path with
    | .file key => .ok (key, true)
    | .vacant key => .ok (key, false)
    | .directory => .error (.path .isDirectory path)
    | .missingDirectory => .error (.path .isDirectory path)
    | .notDirectory => .error (.path .notDirectory path)
    | .missing => .error (.path .missing path)

end Disk

/-- a text with every line end as a line feed; `afterReturn` says that a carriage return was just
turned into one -/
def lineEndsFrom (afterReturn : Bool) : List Char → List Char
  | [] => []
  | c :: cs =>
    if c = '\r' then '\n' :: lineEndsFrom true cs
    else if c = '\n' && afterReturn then lineEndsFrom false cs
    else c :: lineEndsFrom false cs

/-- a text with every line end as a line feed -/
def lineEnds (s : String) : String := String.ofList (lineEndsFrom false s.toList)

end BraceScript
