import BraceScript.Console

/-!
# The command line

With the name of a file, runs the program in it; without one, opens the console. A program sees
the texts of the files below the working directory, and what it changes is written there when it
ends. Standard input is read to its end before.
-/

open BraceScript

/-- the lines of a stream -/
partial def readLines (input : IO.FS.Stream) (lines : Array String) : IO (List String) := do
  let line ← input.getLine
  if line.isEmpty then return lines.toList
  let text := if line.endsWith "\n" then (line.dropEnd 1).toString else line
  readLines input (lines.push text)

/-- the files that are texts in the working directory and below it -/
partial def readFiles (dirs : List String) (files : List (String × String)) :
    IO (List (String × String)) := do
  match dirs with
  | [] => return files
  | dir :: dirs =>
    let root ← IO.currentDir
    let mut dirs := dirs
    let mut files := files
    for entry in ← (root / dir).readDir do
      let key := if dir = "" then entry.fileName else dir ++ "/" ++ entry.fileName
      if entry.fileName.startsWith "." then continue
      if ← entry.path.isDir then dirs := key :: dirs
      else if let some text ← (some <$> IO.FS.readFile entry.path) <|> pure none then
        files := (key, text) :: files
    readFiles dirs files

/-- run the console or a file -/
def main (args : List String) : IO UInt32 := do
  let input ← readLines (← IO.getStdin) #[]
  let disk : Disk := ⟨← readFiles [""] []⟩
  let start := World.start ("bracescript" :: args) input disk "__main__"
  let (signal, w) :=
    if args.isEmpty then start.console
    else match start.runFile with
      | (.ok _, w) => (none, w)
      | (.error s, w) => (some s, w)
  IO.print w.output
  for (key, text) in start.changedFiles w do
    IO.FS.writeFile key text
  match signal with
  | none => return 0
  | some s =>
    IO.eprintln (w.report s)
    return 1
