import BraceScript.Eval.Basic
import BraceScript.Store.Handle

/-!
# Operations on files

* `Exec.openFile`   open a file
* `Exec.readRest`, `Exec.readLine`, `Exec.readLines`   read from an open file
* `Exec.writeText`, `Exec.closeFile`   write to it and close it
* `Exec.readWhole`  the text of a file at a path
-/

namespace BraceScript

/-- the name of the type of an argument that had to be a text -/
def argumentType : Value → String
  | .null => "None"
  | v => v.kindName

namespace Exec

def newHandle (h : Handle) : Exec Value :=
  modifyGet fun w => (.file w.handles.size, { w with handles := w.handles.push h })

def pathOf (v : Value) : Except Fault String :=
  match v with
  | .str s => .ok s
  | v => .error (.badPath v.typeName)

/-- the key of a file at a path that is opened in a mode; the file is made or emptied if need be -/
def prepareFile (path : String) (m : FileMode) : Exec String := do
  if m.reading then
    let key ← query (·.disk.toRead path)
    modify (·.settle key)
    return key
  else if m.creating && (← get).disk.locate path == .directory && !path.endsWith "/" then
    fail (.path .exists path)
  else
    let (key, present) ← query (·.disk.toWrite path)
    if m.creating && present then fail (.path .exists path)
    modify (·.settle key)
    if m.writing || !present then modify fun w => { w with disk := w.disk.write key "" }
    return key

def openFile (path mode : Value) : Exec Value := do
  match mode with
  | .str modeText =>
    let number := path.numeric?.isSome
    if !number then let _ ← ofExcept (pathOf path)
    let m ← ofExcept (FileMode.ofText modeText)
    let name ← ofExcept (pathOf path)
    if name.toList.contains '\x00' then fail .nullInPath
    if !m.hasPurpose then fail .modeMissing
    let key ← prepareFile name m
    let size := (((← get).disk.read? key).getD "").utf8ByteSize
    newHandle {
      name := name, mode := modeText, key := key
      readable := m.reading || m.updating
      writable := m.writing || m.appending || m.creating || m.updating
      appending := m.appending
      closed := false, position := if m.appending then size else 0, unread := [], pending := "" }
  | mode => fail (.modeType (argumentType mode))

def checkOpen (cell : Nat) : Exec Unit := do
  if ((← get).handle cell).closed then fail .closedFile

def checkReadable (cell : Nat) : Exec Unit := do
  checkOpen cell
  if !((← get).handle cell).readable then fail .notReadable

/-- take what is left to read of a file, and leave the given characters -/
def takeUnread (cell : Nat) (rest : List Char) : Exec Unit :=
  modifyHandle cell fun h => { h with unread := rest }

def readRest (cell : Nat) : Exec Value := do
  checkReadable cell
  modify (·.load cell)
  let text := ((← get).handle cell).unread
  takeUnread cell []
  return .str (String.ofList text)

/-- the next line of a file, empty at its end -/
def readLine (cell : Nat) : Exec String := do
  checkReadable cell
  if !((← get).handle cell).unread.contains '\n' then modify (·.load cell)
  let (line, rest) := Text.firstLine ((← get).handle cell).unread
  takeUnread cell rest
  return String.ofList line

def readLines (cell : Nat) : Exec (List Value) := do
  checkReadable cell
  modify (·.load cell)
  let text := ((← get).handle cell).unread
  takeUnread cell []
  return (Text.lines text).map fun l => .str (String.ofList l)

/-- write a text to a file; the number of its characters -/
def writeText (cell : Nat) (data : Value) : Exec Value := do
  match data with
  | .str s =>
    checkOpen cell
    if !((← get).handle cell).writable then fail .notWritable
    modifyHandle cell fun h => { h with pending := h.pending ++ s, unread := [] }
    return .int s.length
  | v => fail (.writeType (argumentType v))

def closeFile (cell : Nat) : Exec Value := do
  if !((← get).handle cell).closed then modify (·.close cell)
  return .null

/-- the text of a file at a path, line ends as line feeds -/
def readWhole (path : String) : Exec String := do
  let key ← query (·.disk.toRead path)
  modify (·.settle key)
  return lineEnds (((← get).disk.read? key).getD "")

end Exec

end BraceScript
