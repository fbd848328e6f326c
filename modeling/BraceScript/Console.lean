import BraceScript.Eval.Display
import BraceScript.Session
import BraceScript.Text.Split

/-!
# The console

Reads lines of input, runs them when they are complete, and writes what they give.

* `World.console`   a whole session at the console
-/

namespace BraceScript

def version : String := "1.05"

/-- the prompt for a new text, and for more of one -/
def prompt (lines : List String) : String := if lines.isEmpty then ">>> " else "... "

def quitWords : List String := ["quit", "exit", ":q"]

namespace World

def say (w : World) (s : String) : World := { w with output := w.output ++ s }

/-- the text of what ended an evaluation; one that cannot be shown has the text of that fault -/
def report (w : World) (signal : Signal) : String :=
  match w.signalText signal with
  | .ok s => s
  | .error f => (f.message?).getD ""

/-- write what ended a program. If it has no text, this is what ends the session; so does lack of an answer. -/
def complain (w : World) (signal : Signal) : Option Signal × World :=
  if signal = .exhausted then (some .exhausted, w)
  else match w.signalText signal with
    | .ok s => (none, w.say ("Error: " ++ s ++ "\n"))
    | .error f => (some (.fault f), w)

/-- run a complete text and write what it gives, if it gives something -/
def runLine (w : World) (source : String) : Option Signal × World :=
  match w.run source with
  | (.ok .null, w) => (none, w)
  | (.ok v, w) =>
    match w.plain v with
    | .ok s => (none, w.say (s ++ "\n"))
    | .error f => w.complain (.fault f)
  | (.error signal, w) => w.complain signal

/-- go on with a session, unless something ended it -/
def goOn (next : World → Option Signal × World) : Option Signal × World → Option Signal × World
  | (none, w) => next w
  | ended => ended

/-- the turns of a session, with the lines of an unfinished text -/
def consoleTurns : Nat → List String → World → Option Signal × World
  | 0, _, w => (none, w)
  | fuel + 1, lines, w =>
    let w := w.say (prompt lines)
    match w.input with
    | [] => (none, w.say "\n")
    | line :: rest =>
      let w := { w with input := rest }
      let word := Text.strip line
      if lines.isEmpty && quitWords.contains word then (none, w)
      else if lines.isEmpty && word = ":reset" then
        consoleTurns fuel [] (w.reset.say "Interpreter reset.\n")
      else
        let lines := lines ++ [line]
        let source := "\n".intercalate lines
        if needsMore source then consoleTurns fuel lines w
        else goOn (consoleTurns fuel []) (w.runLine source)

/-- a whole session at the console: each turn takes a line of input. It says what ended it before its time. -/
def console (w : World) : Option Signal × World :=
  consoleTurns (w.input.length + 1) [] (w.say ("nebula version " ++ version ++ "\n"))

end World

end BraceScript
