import BraceScript.Eval.Display
import BraceScript.Eval.Machine

/-!
# Branches and handlers

* `evalBranches`   the first branch whose condition is true
* `evalCases`      the first case with a pattern that equals the subject
* `evalTry`        a block with a handler
-/

namespace BraceScript

/-! ## Branches -/

/-- the first branch whose condition is true -/
def evalBranches (m : Machine) (scope : Nat) : List (Option Node × List Node) → Exec Value
  | [] => pure .null
  | (none, body) :: _ => runBlock m scope .null body
  | (some c, body) :: rest => do
    if ← Exec.truth (← m.exec c scope) then runBlock m scope .null body
    else evalBranches m scope rest

/-- does a value equal one of the patterns? -/
def matchesAny (m : Machine) (scope : Nat) (v : Value) : List Node → Exec Bool
  | [] => pure false
  | p :: rest => do
    let u ← m.exec p scope
    if (← get).equal v u then return true else matchesAny m scope v rest

/-- the first case with a pattern that equals the value, or without patterns -/
def evalCases (m : Machine) (scope : Nat) (v : Value) : List (List Node × List Node) → Exec Value
  | [] => pure .null
  | ([], body) :: _ => runBlock m scope .null body
  | (patterns, body) :: rest => do
    if ← matchesAny m scope v patterns then runBlock m scope .null body
    else evalCases m scope v rest

/-! ## Handlers -/

/-- a block with a handler for all that can end it, except lack of fuel. The calls that were cut off
count as active until the handler is done. -/
def evalTry (m : Machine) (scope : Nat) (name : Option String) (body handler : List Node) :
    Exec Value := do
  let active := (← get).active
  tryCatch (runBlock m scope .null body) fun
    | .exhausted => throw .exhausted
    | signal => do
      let text ← Exec.query (·.signalText signal)
      Exec.bindMessage scope name (.str text)
      let v ← runBlock m scope .null handler
      modify fun w => { w with active := active }
      return v

end BraceScript
