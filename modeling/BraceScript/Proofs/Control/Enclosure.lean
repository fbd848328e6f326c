import BraceScript.Proofs.Exec.Run

/-!
# The statements around a block

Branches, cases, loops and handlers run a block and then go on with its value or without it. An
enclosure is what is left to do of such a statement while its block runs, so that running the
statement is running the block and finishing the enclosure.

* `Enclosure`   what is left of a statement around a block, with `Enclosure.finish` doing it
* `Enters`      a statement comes to run a block
* `Enters.run`  running the statement is finishing its enclosure around the block
-/

namespace BraceScript

/-! ## enclosures -/

/-- what is left to do of a statement while a block of it runs. `active` are the calls that were active
when the block was entered. -/
inductive Enclosure
  /-- the block is a statement, or a branch or a case of one -/
  | branch
  /-- the block has a handler -/
  | attempt (name : Option String) (handler : List Node) (active : List Cell)
  /-- the block is a handler -/
  | handler (active : List Cell)
  /-- the block is a turn of a loop over a list; `places` are left -/
  | forTurn (var : String) (iterable : Value) (body : List Node) (places : List Int)
      (active : List Cell)
  /-- the block is a turn of a loop with a condition; `fuel` turns are left -/
  | whileTurn (condition : Node) (body : List Node) (fuel : Nat) (active : List Cell)

/-- run the body of a loop once, with the calls that were active before -/
def turn (active : List Cell) (body : Exec Value) : Exec Bool :=
  tryCatch (do
    let _ ← body
    return true) fun
    | .continueLoop => do
      modify fun w => { w with active := active }
      return true
    | .breakLoop => do
      modify fun w => { w with active := active }
      return false
    | signal => throw signal

/-- run a handler for a signal, with the calls that were active before -/
def handle (m : Machine) (scope : Nat) (name : Option String) (handler : List Node)
    (active : List Cell) : Signal → Exec Value
  | .exhausted => throw .exhausted
  | signal => do
    let text ← Exec.query (·.signalText signal)
    Exec.bindMessage scope name (.str text)
    let v ← runBlock m scope .null handler
    modify fun w => { w with active := active }
    return v

/-- run a block and do what is left of the statement around it -/
def Enclosure.finish (m : Machine) (scope : Nat) (inner : Exec Value) : Enclosure → Exec Value
  | .branch => inner
  | .attempt name recovery active => tryCatch inner (handle m scope name recovery active)
  | .handler active => do
    let v ← inner
    modify fun w => { w with active := active }
    return v
  | .forTurn var iterable body places active => do
    if ← turn active inner then forPlaces m scope var iterable body places else return .null
  | .whileTurn condition body fuel active => do
    if ← turn active inner then whileTurns m scope condition body fuel else return .null

theorem turn_congr {x y : Exec Value} {w w₁ : World} (h : x w = y w₁) (active : List Cell) :
    turn active x w = turn active y w₁ := by
  simp only [turn, Exec.tryCatch_run, Exec.bind_run, h]

/-- an enclosure goes on from the outcome of its block -/
theorem Enclosure.finish_congr (m : Machine) (scope : Nat) {x y : Exec Value} {w w₁ : World}
    (h : x w = y w₁) (around : Enclosure) :
    around.finish m scope x w = around.finish m scope y w₁ := by
  cases around with
  | branch => exact h
  | attempt name handler active => simp only [finish, Exec.tryCatch_run, h]
  | handler active => exact Exec.bind_congr h _
  | forTurn var iterable body places active => exact Exec.bind_congr (turn_congr h active) _
  | whileTurn condition body fuel active => exact Exec.bind_congr (turn_congr h active) _

/-! ## entering a block -/

section
variable (m : Machine) (scope : Nat)

/-- a chain of branches comes to run a block -/
inductive EntersBranch : List (Option Node × List Node) → World → List Node → World → Prop
  | final {body rest w} : EntersBranch ((none, body) :: rest) w body w
  | taken {c body rest v w w₁ w₂} (run : m.exec c scope w = .ok v w₁)
      (test : Exec.truth v w₁ = .ok true w₂) : EntersBranch ((some c, body) :: rest) w body w₂
  | skipped {c body rest v w w₁ w₂ block last} (run : m.exec c scope w = .ok v w₁)
      (test : Exec.truth v w₁ = .ok false w₂) (next : EntersBranch rest w₂ block last) :
      EntersBranch ((some c, body) :: rest) w block last

/-- the cases for a value come to run a block -/
inductive EntersCase (v : Value) : List (List Node × List Node) → World → List Node → World → Prop
  | final {body rest w} : EntersCase v (([], body) :: rest) w body w
  | taken {p ps body rest w w₁} (test : matchesAny m scope v (p :: ps) w = .ok true w₁) :
      EntersCase v ((p :: ps, body) :: rest) w body w₁
  | skipped {p ps body rest w w₁ block last}
      (test : matchesAny m scope v (p :: ps) w = .ok false w₁)
      (next : EntersCase v rest w₁ block last) : EntersCase v ((p :: ps, body) :: rest) w block last

/-- a loop over places comes to run its body, with places left -/
inductive EntersFor (var : String) (iterable : Value) (body : List Node) :
    List Int → World → List Int → World → Prop
  | now {i rest item w w₁ u w₂} (run : Exec.element iterable (.int i) w = .ok item w₁)
      (bound : Exec.bindName scope var item w₁ = .ok u w₂) :
      EntersFor var iterable body (i :: rest) w rest w₂
  | later {i rest item w w₁ u w₂ w₃ left last}
      (run : Exec.element iterable (.int i) w = .ok item w₁)
      (bound : Exec.bindName scope var item w₁ = .ok u w₂)
      (again : loopTurn (runBlock m scope .null body) w₂ = .ok true w₃)
      (next : EntersFor var iterable body rest w₃ left last) :
      EntersFor var iterable body (i :: rest) w left last

/-- a loop with a condition comes to run its body, with turns left -/
inductive EntersWhile (condition : Node) (body : List Node) : Nat → World → Nat → World → Prop
  | now {fuel v w w₁ w₂} (run : m.exec condition scope w = .ok v w₁)
      (test : Exec.truth v w₁ = .ok true w₂) : EntersWhile condition body (fuel + 1) w fuel w₂
  | later {fuel v w w₁ w₂ w₃ left last} (run : m.exec condition scope w = .ok v w₁)
      (test : Exec.truth v w₁ = .ok true w₂)
      (again : loopTurn (runBlock m scope .null body) w₂ = .ok true w₃)
      (next : EntersWhile condition body fuel w₃ left last) :
      EntersWhile condition body (fuel + 1) w left last

/-- the step of a loop over a list -/
def strideOf : Option Node → Exec Value
  | some e => m.exec e scope
  | none => pure (.int 1)

/-- a statement that is executed comes to run a block -/
inductive Enters : Node → World → Enclosure → List Node → World → Prop
  | block {body w} : Enters (.block body) w .branch body w
  | ifChain {branches w body w₁} (enters : EntersBranch m scope branches w body w₁) :
      Enters (.ifChain branches) w .branch body w₁
  | matchCase {subject cases v w w₁ body w₂} (run : m.exec subject scope w = .ok v w₁)
      (enters : EntersCase m scope v cases w₁ body w₂) :
      Enters (.matchCase subject cases) w .branch body w₂
  | attempt {name body handler w} :
      Enters (.tryCatch name body handler) w (.attempt name handler w.active) body w
  | handler {name body handler signal text u w w₁ w₂}
      (run : runBlock m scope .null body w = .error signal w₁) (caught : signal ≠ .exhausted)
      (shown : w₁.signalText signal = .ok text)
      (bound : Exec.bindMessage scope name (.str text) w₁ = .ok u w₂) :
      Enters (.tryCatch name body handler) w (.handler w.active) handler w₂
  | forEach {var iterable step body cell s w w₁ w₂ w₃ places left last}
      (run : m.exec iterable scope w = .ok (.list cell) w₁)
      (size : strideOf m scope step w₁ = .ok s w₂)
      (steps : stepPlaces (w₂.list cell).size s w₂ = .ok places w₃)
      (enters : EntersFor m scope var (.list cell) body places w₃ left last) :
      Enters (.forEach var iterable step body) w (.forTurn var (.list cell) body left last.active)
        body last
  | whileLoop {condition body w left last}
      (enters : EntersWhile m scope condition body m.fuel w left last) :
      Enters (.whileLoop condition body) w (.whileTurn condition body left last.active) body last

variable {m : Machine} {scope : Nat}

theorem EntersBranch.run {branches w body w₁} (h : EntersBranch m scope branches w body w₁) :
    evalBranches m scope branches w = runBlock m scope .null body w₁ := by
  induction h with
  | final => rfl
  | taken run test => simp [evalBranches, run, test]
  | skipped run test _ ih => simpa [evalBranches, run, test] using ih

theorem EntersCase.run {v cases w body w₁} (h : EntersCase m scope v cases w body w₁) :
    evalCases m scope v cases w = runBlock m scope .null body w₁ := by
  induction h with
  | final => rfl
  | taken test => simp [evalCases, test]
  | skipped test _ ih => simpa [evalCases, test] using ih

theorem EntersFor.run {var iterable body places w left w₁}
    (h : EntersFor m scope var iterable body places w left w₁) :
    forPlaces m scope var iterable body places w =
      (Enclosure.forTurn var iterable body left w₁.active).finish m scope
        (runBlock m scope .null body) w₁ := by
  induction h with
  | now run bound =>
    simp only [forPlaces, Enclosure.finish, Exec.bind_run, run, bound]
    rfl
  | later run bound again _ ih => simpa [forPlaces, run, bound, again] using ih

theorem EntersWhile.run {condition body fuel w left w₁}
    (h : EntersWhile m scope condition body fuel w left w₁) :
    whileTurns m scope condition body fuel w =
      (Enclosure.whileTurn condition body left w₁.active).finish m scope
        (runBlock m scope .null body) w₁ := by
  induction h with
  | now run test =>
    simp only [whileTurns, Exec.bind_run, run, test]
    rfl
  | later run test again _ ih => simpa [whileTurns, run, test, again] using ih

/-- **Running a statement is running the block that it enters and finishing the enclosure.** -/
theorem Enters.run {s w around body w₁} (h : Enters m scope s w around body w₁) :
    execNode m scope s w = around.finish m scope (runBlock m scope .null body) w₁ := by
  cases h with
  | block => rfl
  | ifChain enters => exact enters.run
  | @matchCase subject cases v _ w₀ _ _ run enters =>
    show (m.exec subject scope >>= fun v => evalCases m scope v cases) w = _
    rw [Exec.bind_run, run]
    exact enters.run
  | attempt => rfl
  | @handler name block _ signal text u _ w₀ _ run caught shown bound =>
    show evalTry m scope name block body w = _
    simp only [evalTry, Exec.bind_run, Exec.get_run, Exec.tryCatch_run, run]
    cases signal with
    | exhausted => exact absurd rfl caught
    | _ => simp [Enclosure.finish, Exec.query, Exec.ofExcept, shown, bound]
  | @forEach var iterable step _ cell s _ w₂ w₃ w₄ places left _ run size steps enters =>
    show evalFor m scope var iterable step body w = _
    have hf : evalFor m scope var iterable step body w =
        forPlaces m scope var (.list cell) body places w₄ := by
      cases step with
      | none => simp_all [evalFor, strideOf]
      | some e => simp_all [evalFor, strideOf]
    rw [hf]
    exact enters.run
  | whileLoop enters => exact enters.run

end

end BraceScript
