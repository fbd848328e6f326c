import BraceScript.Proofs.Exec.Fuel
import BraceScript.Session

/-!
# What a run comes to

To say that a run does or does not come to something, the machine is stopped there: it ends as without
fuel, which no handler catches, and leaves a state that it is told to leave. If the run is the same
whatever that state is, it never came there.

* `Occasion`       a tree that is about to be executed, or a call with its outcome
* `stopped`        the machine that stops at an occasion
* `Never`          a run never comes to an occasion
* `runOn_coupled`  programs on coupled machines
* `runOn_stopped`  until it stops, a run on a stopped machine is the run of the program
-/

namespace BraceScript

open Exec

/-- what a run may come to: a tree that is about to be executed in a scope, or a call that ends -/
structure Occasion where
  tree : Nat → World → Node → Bool
  call : World → Value → List Value → EStateM.Result Signal World Value → Bool

/-- the machine that stops at an occasion and leaves a given state -/
def stopped (a : Occasion) (u : World) : Nat → Machine
  | 0 => machine 0
  | n + 1 =>
    { exec := fun node scope w =>
        if a.tree scope w node then .error .exhausted u else execNode (stopped a u n) scope node w
      call := fun f args w =>
        let r := callValue (stopped a u n) f args w
        if a.call w f args r then .error .exhausted u else r
      fuel := n }

/-- run a program text in the global scope, on a machine -/
def runOn (m : Machine) (source : String) : Exec Value := do
  let body ← parseProgram source
  runBlock m (← get).globals .null body

theorem runOn_machine (n : Nat) (source : String) : runOn (machine n) source = runSource n source := rfl

/-- the run of a program never comes to an occasion: a machine that stops there does not stop, whatever
the state that it would leave -/
def Never (a : Occasion) (n : Nat) (source : String) (w : World) : Prop :=
  ∀ u, runOn (stopped a u n) source w = runSource n source w

theorem runOn_ok {source : String} {body : List Node} (hp : parseSource source = .ok body)
    (m : Machine) : runOn m source = get >>= fun w => runBlock m w.globals .null body := by
  unfold runOn parseProgram
  rw [hp]
  rfl

theorem runOn_error {source : String} {e : ParseError} (hp : parseSource source = .error e)
    (m : Machine) : runOn m source = fail (.parse e) := by
  unfold runOn parseProgram
  rw [hp]
  rfl

/-- a program on coupled machines, if its trees obey the law -/
theorem runOn_coupled {C : Coupling} (hC : C.Unscoped) {m m' : Machine} (h : m.Coupled C m')
    {source : String} (hs : ∀ body, parseSource source = .ok body →
      ∀ t ∈ blockSteps body, t.Obeys C.law false) :
    C.Rel none false (runOn m source) (runOn m' source) := by
  cases hp : parseSource source with
  | error e =>
    rw [runOn_error hp, runOn_error hp]
    exact C.steady (steady_fail nofun)
  | ok body =>
    rw [runOn_ok hp, runOn_ok hp]
    exact C.read fun w _ => hC (runBlock_coupled h w.globals .null (hs body hp))

/-! ## stopped machines -/

theorem stop_or_eq {α : Type} (c : Bool) (u : World) {r r' : EStateM.Result Signal World α}
    (h : r = r' ∨ ∃ v, r = .error .exhausted v) :
    (if c then .error .exhausted u else r) = r' ∨
      ∃ v, (if c then .error .exhausted u else r) = .error .exhausted v := by
  cases c with
  | true => exact Or.inr ⟨u, rfl⟩
  | false => exact h

/-- a stopped machine lacks fuel wherever it differs from the machine -/
theorem stopped_below (a : Occasion) (u : World) (n : Nat) :
    (stopped a u n).Coupled belowCoupling (machine n) := by
  induction n with
  | zero => exact machine_coupled belowCoupling_total (Nat.le_refl 0)
  | succ n ih =>
    refine ⟨fun {node l} _ s w => stop_or_eq _ u ?_, fun f args w => stop_or_eq _ u ?_, Or.inl rfl⟩
    · rw [machine_exec, execNode_byRule, execNode_byRule]
      exact belowCoupling_total.toLoose.byRule_coupled
        (belowCoupling_total.execPlain_coupled ih s l) node w
    · exact belowCoupling_total.callValue_coupled ih f args w

/-- **Until it stops, a run on a stopped machine is the run of the program.** -/
theorem runOn_stopped (a : Occasion) (u : World) (n : Nat) (source : String) :
    Below (runOn (stopped a u n) source) (runSource n source) :=
  runOn_coupled (fun h => h) (stopped_below a u n) fun _ _ _ _ => trivial

end BraceScript
