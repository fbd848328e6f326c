import BraceScript.Proofs.Control.Placement
import BraceScript.Proofs.Exec.Regime

/-!
# The signals of loops

The words `break` and `continue` end evaluations with signals, which only loops catch. In a well placed
program they never leave the unit that they stand in: a run does not end with one, and neither does a
call that is made during the run. This asks of the files that the program includes what it asks of the
program itself.

* `strayInclude`   a run comes to include a file that is not well placed
* `loopCall`       a call ends with the signal of a loop
* `steeredRegime`  well placed programs keep the signals of loops in their places
* `stopped_steered`   machines whose included files are well placed
* `loop_signals_stay`   what well placed programs keep
-/

namespace BraceScript

open Exec

/-! ## occasions -/

/-- a run comes to include a file that is not well placed, as a statement or by a call -/
def strayInclude : Occasion := foreignInclude wellPlaced

def Signal.isLoop : Signal → Bool
  | .breakLoop => true
  | .continueLoop => true
  | _ => false

def loopCall : Occasion where
  tree _ _ _ := false
  call
    | _, _, _, .error s _ => s.isLoop
    | _, _, _, .ok _ _ => false

/-! ## well placed programs -/

/-- well placed programs keep the signals of loops in their places -/
def steeredRegime : Regime where
  law := placedLaw
  Ends l s := s.isLoop = true → l = true
  accepts := wellPlaced
  accepted := wellPlaced_obeys
  unquoted := Condition.law_unquoted
  breakLoop h _ := (Node.everywhere_iff.mp h.1).1
  continueLoop h _ := (Node.everywhere_iff.mp h.1).1
  other {_ s} hb hc hl := by
    cases s with
    | breakLoop => exact absurd rfl hb
    | continueLoop => exact absurd rfl hc
    | _ => cases hl
  enter h hl := nomatch h hl

/-- an outcome outside of loops, or in one, with the signals of loops in their places -/
def Steered {α : Type} (l : Bool) (r : EStateM.Result Signal World α) : Prop := steeredRegime.Kept l r

theorem steeredCoupling_unscoped {v : World} : (steeredRegime.coupling v).Unscoped := Regime.coupling_unscoped

theorem Steered.not_loopCall {r : EStateM.Result Signal World Value} (h : Steered false r) (w : World)
    (f : Value) (args : List Value) : loopCall.call w f args r = false := by
  cases h with
  | value a _ => rfl
  | signal hl _ => exact Bool.eq_false_iff.mpr fun hi => nomatch hl hi

/-- **A machine that stops at stray files is followed by one that stops at calls that end with the signal
of a loop**: until the first one stops, no call ends so, and loops catch their signals. -/
theorem stopped_steered (v u : World) (n : Nat) :
    (stopped strayInclude v n).Coupled (steeredRegime.coupling v) (stopped loopCall u n) :=
  Regime.stopped_coupled (fun _ _ _ => rfl) (fun w f args _ hr => Steered.not_loopCall hr w f args) v u n

/-! ## runs -/

/-- **The signals of loops stay in their units.** A program that is well placed, and comes to no file
that is not, runs from a fresh state without ending with the signal of a loop, and no call that is made
during the run ends with one. -/
theorem loop_signals_stay (n : Nat) (source : String) (arguments : List String) (input : List String)
    (disk : Disk) (name : String)
    (hp : ∀ body, parseSource source = .ok body → wellPlaced body = true)
    (hi : Never strayInclude n source (World.start arguments input disk name)) :
    (∀ s w', runSource n source (World.start arguments input disk name) = .error s w' →
      s ≠ .breakLoop ∧ s ≠ .continueLoop) ∧
      Never loopCall n source (World.start arguments input disk name) := by
  generalize hw : World.start arguments input disk name = w at hi ⊢
  have ho : w.Obeys placedLaw := hw ▸ World.obeys_of_empty rfl rfl
  obtain ⟨v, hv⟩ := exists_ne_exhausted (runSource n source w)
  have hf : ∀ u, runSource n source w = runOn (stopped loopCall u n) source w ∧
      Steered false (runSource n source w) := by
    intro u
    have hc := runOn_coupled steeredCoupling_unscoped (stopped_steered v u n) fun body hb =>
      wellPlaced_obeys hb (hp body hb)
    rcases hc w ho with he | he
    · rw [hi v] at he
      exact absurd he hv
    · rw [hi v] at he
      exact he
  refine ⟨fun s w' hr => ?_, fun u => (hf u).1.symm⟩
  have hs := (hf default).2
  rw [hr] at hs
  cases hs with
  | signal hl _ =>
    constructor
    · rintro rfl
      cases hl rfl
    · rintro rfl
      cases hl rfl

/-- a loop that calls a function and ends: `def f() { "a" } while ("a") { f() break }` -/
def leaveLoop : String := "def f() \x7b \"a\" \x7d while (\"a\") \x7b f() break \x7d"

/-- the state that it leaves -/
def World.leftLoop : World :=
  let globals := (World.initialScope 0 0).insert "f" (.function 0)
  { World.start [] [] default "main" with
    functions := #[⟨[], [.str "a"], 0⟩]
    scopes := #[globals, globals] }

/-- the signal of the loop stays in the loop -/
theorem loop_signals_stay_leave :
    runSource 5 leaveLoop (World.start [] [] default "main") = .ok .null World.leftLoop ∧
      Never loopCall 5 leaveLoop (World.start [] [] default "main") := by
  have ht : tokenize leaveLoop = [⟨.keyword, "def"⟩, ⟨.ident, "f"⟩, ⟨.symbol, "("⟩, ⟨.symbol, ")"⟩,
      ⟨.symbol, "\x7b"⟩, ⟨.string, "a"⟩, ⟨.symbol, "\x7d"⟩, ⟨.keyword, "while"⟩, ⟨.symbol, "("⟩,
      ⟨.string, "a"⟩, ⟨.symbol, ")"⟩, ⟨.symbol, "\x7b"⟩, ⟨.ident, "f"⟩, ⟨.symbol, "("⟩,
      ⟨.symbol, ")"⟩, ⟨.keyword, "break"⟩, ⟨.symbol, "\x7d"⟩] := by decide +kernel
  have hp : parseSource leaveLoop = .ok [.define ⟨"f", [], [.str "a"]⟩,
      .whileLoop (.str "a") [.call (.var "f") [] [], .breakLoop]] := by
    rw [parseSource, ht]
    rfl
  have hr : runSource 5 leaveLoop (World.start [] [] default "main") = .ok .null World.leftLoop := by
    rw [← runOn_machine, runOn_ok hp]
    rfl
  refine ⟨hr, (loop_signals_stay 5 leaveLoop [] [] default "main" (fun body hb => ?_) fun u => ?_).2⟩
  · rw [hp] at hb
    cases hb
    decide +kernel
  · rw [hr, runOn_ok hp]
    rfl

end BraceScript
