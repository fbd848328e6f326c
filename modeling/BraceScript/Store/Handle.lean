import BraceScript.Store.Reach
import BraceScript.Text.Split

/-!
# Open files

What is written to a file reaches the disk when the file is closed, or when the program can no
longer reach it.

* `World.flush`    put what was written on the disk
* `World.settle`   flush the files at a path that can no longer be reached
* `World.finish`   flush all files
* `FileMode.ofText`   the meaning of a mode
-/

namespace BraceScript

/-- put bytes into others at a position, over those that stand there -/
def overwrite (bytes pending : ByteArray) (position : Nat) : ByteArray :=
  bytes.extract 0 position ++ ⟨Array.replicate (position - bytes.size) 0⟩ ++ pending ++
    bytes.extract (position + pending.size) bytes.size

/-- the text that bytes encode; bytes that encode none give the empty text -/
def textOfBytes (bytes : ByteArray) : String := (String.fromUTF8? bytes).getD ""

namespace World

/-- put what was written to an open file on the disk -/
def flush (w : World) (cell : Nat) : World :=
  let h := w.handle cell
  if h.pending.isEmpty then w
  else
    let bytes := ((w.disk.read? h.key).getD "").toUTF8
    let pending := h.pending.toUTF8
    let position := if h.appending then bytes.size else h.position
    let disk := w.disk.write h.key (textOfBytes (overwrite bytes pending position))
    { w with
      disk := disk
      handles := w.handles.modify cell fun h =>
        { h with pending := "", position := position + pending.size } }

def close (w : World) (cell : Nat) : World :=
  let w := w.flush cell
  { w with handles := w.handles.modify cell fun h => { h with closed := true } }

/-- the open files for a path that hold text which is not on the disk -/
def waiting (w : World) (key : String) : List Nat :=
  (List.range w.handles.size).filter fun i =>
    let h := w.handle i
    h.key = key && !h.closed && !h.pending.isEmpty

/-- close the files for a path that can no longer be reached -/
def settle (w : World) (key : String) : World :=
  match w.waiting key with
  | [] => w
  | cells =>
    let kept := w.reached
    (cells.filter fun i => !kept.contains (.file i)).foldl World.close w

def finish (w : World) : World := (List.range w.handles.size).foldl World.flush w

/-- take what is on the disk after the position of an open file -/
def load (w : World) (cell : Nat) : World :=
  let h := w.handle cell
  let w := (w.settle h.key).flush cell
  let h := w.handle cell
  let bytes := ((w.disk.read? h.key).getD "").toUTF8
  let fresh := lineEnds (textOfBytes (bytes.extract h.position bytes.size))
  { w with
    handles := w.handles.modify cell fun h =>
      { h with unread := h.unread ++ fresh.toList, position := max h.position bytes.size } }

end World

/-- the meaning of the mode that a file is opened with -/
structure FileMode where
  reading : Bool
  writing : Bool
  appending : Bool
  creating : Bool
  updating : Bool
deriving DecidableEq, Repr

namespace FileMode

/-- does a character stand in a list twice? -/
def twice : List Char → Bool
  | [] => false
  | c :: cs => cs.contains c || twice cs

/-- the meaning of a mode: one of reading, writing, appending and creating, and a plus for both
directions -/
def ofText (mode : String) : Except Fault FileMode :=
  let cs := mode.toList
  if twice cs || !cs.all (fun c => "rwaxbt+".toList.contains c) then .error (.badMode mode)
  else if cs.contains 't' && cs.contains 'b' then .error .modeClash
  else
    let purposes := cs.filter fun c => c = 'r' || c = 'w' || c = 'a' || c = 'x'
    if 1 < purposes.length then .error .modeCount
    else .ok ⟨cs.contains 'r', cs.contains 'w', cs.contains 'a', cs.contains 'x',
      cs.contains '+'⟩

/-- is there something that the file is opened for? -/
def hasPurpose (m : FileMode) : Bool := m.reading || m.writing || m.appending || m.creating

end FileMode

end BraceScript
