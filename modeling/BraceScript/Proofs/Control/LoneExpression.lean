import BraceScript.Proofs.Control.Placement
import BraceScript.Proofs.Exec.Regime

/-!
# Running and evaluating a text

To evaluate a text is to run it, except if it is one expression: that is no block, and so nobody looks
whether its value is a tuple that is marked as returned. In a session of plain programs no such tuple is
ever made, because blocks execute no returns. The two differ all the same: who looks for the mark of an
empty tuple fails.

* `Node.plain`, `plainProgram`   no default of a field is an access to an attribute
* `plainRegime`       plain programs execute no returns
* `runSource_lone`    the run of an expression evaluates it and looks at its value
* `World.Reachable`   the states of sessions of plain programs
* `run_evaluate`      where running and evaluating agree
-/

namespace BraceScript

open Exec

/-! ## plain programs -/

/-- is no default of a field in a tree an access to an attribute? -/
def Node.plain (node : Node) : Bool := node.everywhere (fun _ => plainHere) false

def plainProgram (body : List Node) : Bool := body.all Node.plain

def plainLaw : Law := everywhereLaw (fun _ => Node.plainHere) id

/-- plain programs, whatever signals they end with -/
def plainRegime : Regime where
  law := plainLaw
  Ends _ _ := True
  accepts := plainProgram
  accepted hp ha := Condition.law_read hp (List.all_eq_true.mp ha)
  unquoted := Condition.law_unquoted
  breakLoop _ := trivial
  continueLoop _ := trivial
  other _ _ := trivial
  enter _ := trivial

/-! ## values that are looked at -/

/-- the value of a statement that stands alone in a block -/
def unwrapped (v : Value) : Exec Value := do
  return (← returned? v).getD v

theorem afterStatement_nil (m : Machine) (scope : Nat) : afterStatement m scope [] = unwrapped := by
  funext v
  unfold afterStatement unwrapped
  congr 1
  funext o
  cases o <;> rfl

/-- is a text one expression that is no block? -/
def isLone (code : String) : Bool :=
  match parseSource code with
  | .ok [e] => isLoneExpression e
  | _ => false

theorem isOrdinary_of_lone {e : Node} (h : isLoneExpression e = true) : e.isOrdinary = true := by
  cases e with
  | includeFile path => cases h
  | ret value => cases h
  | _ => rfl

theorem exists_lone {code : String} (h : isLone code = true) :
    ∃ e, parseSource code = .ok [e] ∧ isLoneExpression e = true := by
  unfold isLone at h
  split at h
  · exact ⟨_, ‹_›, h⟩
  · cases h

/-- an expression that stands alone is executed, and a run looks at its value -/
theorem runSource_lone (n : Nat) {code : String} (h : isLone code = true) :
    runSource n code = evaluateSource n code >>= unwrapped := by
  obtain ⟨e, hp, he⟩ := exists_lone h
  have hr : runSource n code = get >>= fun w => runBlock (machine n) w.globals .null [e] :=
    runOn_ok hp (machine n)
  have hv : evaluateSource n code = get >>= fun w => (machine n).exec e w.globals := by
    unfold evaluateSource parseProgram
    rw [hp]
    simp only [pure_bind, he, if_true]
  rw [hr, hv, bind_assoc]
  congr 1
  funext w
  rw [runBlock_statement _ _ _ (isOrdinary_of_lone he), afterStatement_nil]

theorem runSource_block (n : Nat) {code : String} (h : isLone code = false) :
    runSource n code = evaluateSource n code := by
  unfold runSource evaluateSource parseProgram
  cases hp : parseSource code with
  | error e => rfl
  | ok body =>
    simp only [pure_bind]
    split
    · rename_i e
      have he : isLoneExpression e = false := by simpa [isLone, hp] using h
      simp only [he, Bool.false_eq_true, if_false]
    · rfl

/-- nothing is left behind by a look at a value -/
theorem after_unwrapped (v : Value) (w : World) : (unwrapped v).after w = w := by
  cases v with
  | tuple cell =>
    unfold Exec.after unwrapped returned?
    simp only [bind_run, get_run]
    cases w.tuple cell with
    | nil => rfl
    | cons mark rest =>
      by_cases hm : mark = .str "return"
      · simp only [hm, if_true]
        cases rest <;> rfl
      · simp only [hm, if_false]
        rfl
  | _ => rfl

theorem unwrapped_empty {w : World} {cell : Nat} (h : w.tuple cell = []) :
    unwrapped (.tuple cell) w = .error (.fault (.indexRange "tuple")) w := by
  unfold unwrapped returned?
  simp only [bind_run, get_run, h]
  rfl

/-- a value that is neither an empty tuple nor marked as returned is given back -/
theorem unwrapped_eq {w : World} {v : Value} (he : ∀ cell, v = .tuple cell → w.tuple cell ≠ [])
    (hm : ∀ cell rest, v = .tuple cell → w.tuple cell ≠ .str "return" :: rest) :
    unwrapped v w = .ok v w := by
  cases v with
  | tuple cell =>
    obtain ⟨mark, rest, ht⟩ := List.exists_cons_of_ne_nil (he cell rfl)
    have hn : mark ≠ .str "return" := by
      rintro rfl
      exact hm cell rest rfl ht
    unfold unwrapped returned?
    simp only [bind_run, get_run, ht, hn, if_false]
    rfl
  | _ => rfl

/-! ## sessions -/

namespace World

variable {w : World} {code : String}

theorem perform_after (x : Exec Value) : (w.perform x).2 = x.after { w with active := [] } := by
  unfold perform Exec.after EStateM.run
  cases x { w with active := [] } <;> rfl

/-- running and evaluating leave the same state -/
theorem run_state (w : World) (code : String) : (w.run code).2 = (w.evaluate code).2 := by
  rw [run, evaluate, perform_after, perform_after]
  cases hl : isLone code with
  | false => rw [runSource_block runFuel hl]
  | true =>
    rw [runSource_lone runFuel hl]
    unfold Exec.after
    rw [bind_run]
    cases evaluateSource runFuel code { w with active := [] } with
    | error s u => rfl
    | ok v u => exact after_unwrapped v u

/-- a text is a plain program, and so are the files that come to be included when it is run -/
structure Accepts (w : World) (code : String) : Prop where
  text (body : List Node) : parseSource code = .ok body → plainProgram body = true
  files : Never (foreignInclude plainProgram) runFuel code { w with active := [] }

/-- the states that are left by running and evaluating plain programs, one after another -/
inductive Reachable : World → Prop
  | start (arguments input : List String) (disk : Disk) (name : String) :
      Reachable (World.start arguments input disk name)
  | run {w : World} {code : String} (h : Reachable w) (hc : w.Accepts code) : Reachable (w.run code).2
  | evaluate {w : World} {code : String} (h : Reachable w) (hc : w.Accepts code) :
      Reachable (w.evaluate code).2

/-- one program keeps the law -/
theorem Obeys.run (hw : w.Obeys plainLaw) (hc : w.Accepts code) : (w.run code).2.Obeys plainLaw := by
  have ha : ({ w with active := [] } : World).Obeys plainLaw := ⟨hw.functions, hw.callables, hw.tuples⟩
  have hk := plainRegime.runSource_kept ha hc.text hc.files
  rw [World.run, perform_after]
  unfold Exec.after
  cases hr : runSource runFuel code { w with active := [] } with
  | ok v u =>
    rw [hr] at hk
    cases hk with
    | value _ hu => exact hu
  | error s u =>
    rw [hr] at hk
    cases hk with
    | signal _ hu => exact hu

/-- sessions keep the law -/
theorem Reachable.obeys (h : w.Reachable) : w.Obeys plainLaw := by
  induction h with
  | start => exact World.obeys_of_empty rfl rfl
  | run _ hc ih => exact ih.run hc
  | evaluate _ hc ih =>
    rw [← run_state]
    exact ih.run hc

theorem Reachable.unmarked (h : w.Reachable) : w.Unmarked := h.obeys.tuples Condition.law_noReturn

/-- a text is one expression, and it evaluates to a tuple of these items -/
def GivesTuple (w : World) (code : String) (items : List Value) : Prop :=
  isLone code = true ∧ ∃ cell, (w.evaluate code).1 = .ok (.tuple cell) ∧
    (w.evaluate code).2.tuple cell = items

theorem run_empty (h : w.GivesTuple code []) : (w.run code).1 = .error (.fault (.indexRange "tuple")) := by
  obtain ⟨hl, cell, hv, ht⟩ := h
  unfold run evaluate perform EStateM.run at *
  rw [runSource_lone runFuel hl, bind_run]
  cases he : evaluateSource runFuel code { w with active := [] } with
  | error s u =>
    rw [he] at hv
    cases hv
  | ok v u =>
    rw [he] at hv ht
    cases hv
    dsimp only
    rw [unwrapped_empty ht]

theorem run_eq_evaluate (he : ¬ w.GivesTuple code [])
    (hm : ∀ rest, ¬ w.GivesTuple code (.str "return" :: rest)) : w.run code = w.evaluate code := by
  cases hl : isLone code with
  | false => rw [run, evaluate, runSource_block runFuel hl]
  | true =>
    unfold GivesTuple run evaluate perform EStateM.run at *
    rw [runSource_lone runFuel hl, bind_run]
    cases hr : evaluateSource runFuel code { w with active := [] } with
    | error s u => rfl
    | ok v u =>
      rw [hr] at he hm
      have hv : unwrapped v u = .ok v u := by
        refine unwrapped_eq (fun cell hc ht => he ⟨hl, cell, ?_, ht⟩)
          fun cell rest hc ht => hm rest ⟨hl, cell, ?_, ht⟩
        · rw [hc]
        · rw [hc]
      dsimp only
      rw [hv]

theorem Unmarked.not_givesTuple (h : (w.evaluate code).2.Unmarked) (rest : List Value) :
    ¬ w.GivesTuple code (.str "return" :: rest) := by
  rintro ⟨_, cell, _, ht⟩
  have hh := h cell
  rw [ht] at hh
  exact hh rfl

end World

/-- **Where running and evaluating a text agree.** In a session of plain programs no tuple is ever marked as
returned, so that no plain text evaluates to one. Running and evaluating leave the same state, and they have
the same outcome unless the text is one expression that evaluates to a tuple which is marked or empty: to
run that one fails if the tuple is empty. -/
theorem run_evaluate (w : World) (code : String) (hw : w.Reachable) :
    w.Unmarked ∧
      (w.Accepts code → ∀ rest, ¬ w.GivesTuple code (.str "return" :: rest)) ∧
      (w.run code).2 = (w.evaluate code).2 ∧
      (¬ w.GivesTuple code [] → (∀ rest, ¬ w.GivesTuple code (.str "return" :: rest)) →
        w.run code = w.evaluate code) ∧
      (w.GivesTuple code [] → (w.run code).1 = .error (.fault (.indexRange "tuple"))) := by
  refine ⟨hw.unmarked, fun hc => ?_, w.run_state code, World.run_eq_evaluate, World.run_empty⟩
  exact (hw.evaluate hc).unmarked.not_givesTuple

/-- it keeps a tuple: `x = **{}` -/
def keepTuple : String := "x = **\x7b\x7d"

/-- the state that it leaves -/
def World.tupleKept : World :=
  { World.start [] [] default "main" with
    dicts := #[.empty]
    tuples := #[[], [.str "kwunpack", .dict 0]]
    scopes := #[(World.initialScope 0 0).insert "x" (.tuple 1)] }

theorem runFuel_eq : ∃ n, runFuel = n + 2 := ⟨runFuel - 2, (Nat.sub_add_cancel (by decide)).symm⟩

theorem keepTuple_read : parseSource keepTuple = .ok [.assign "x" (.keywordUnpack (.dict []))] := by
  have ht : tokenize keepTuple = [⟨.ident, "x"⟩, ⟨.op, "="⟩, ⟨.op, "**"⟩, ⟨.symbol, "\x7b"⟩,
      ⟨.symbol, "\x7d"⟩] := by decide +kernel
  rw [parseSource, ht]
  rfl

theorem keepTuple_run : (World.start [] [] default "main").run keepTuple = (.ok (.tuple 1), .tupleKept) := by
  obtain ⟨n, hn⟩ := runFuel_eq
  rw [World.run, ← runOn_machine, runOn_ok keepTuple_read, hn]
  rfl

theorem keepTuple_accepted : (World.start [] [] default "main").Accepts keepTuple where
  text body hb := by
    rw [keepTuple_read] at hb
    cases hb
    decide +kernel
  files u := by
    obtain ⟨n, hn⟩ := runFuel_eq
    rw [hn, ← runOn_machine, runOn_ok keepTuple_read, runOn_ok keepTuple_read]
    rfl

theorem emptyTuple_read : parseSource "x * 0" = .ok [.binop .mul (.var "x") (.num (.int 0))] := by
  have ht : tokenize "x * 0" = [⟨.ident, "x"⟩, ⟨.op, "*"⟩, ⟨.number, "0"⟩] := by decide +kernel
  rw [parseSource, ht]
  rfl

theorem emptyTuple_evaluate : World.tupleKept.evaluate "x * 0" = (.ok (.tuple 0), .tupleKept) := by
  obtain ⟨n, hn⟩ := runFuel_eq
  unfold World.evaluate evaluateSource parseProgram
  rw [emptyTuple_read, hn]
  rfl

/-- a session of plain programs in which an expression can be evaluated, but not run -/
theorem run_evaluate_empty :
    ((World.start [] [] default "main").run keepTuple).2 = .tupleKept ∧
      World.tupleKept.evaluate "x * 0" = (.ok (.tuple 0), .tupleKept) ∧
      (World.tupleKept.run "x * 0").1 = .error (.fault (.indexRange "tuple")) := by
  have hk : World.tupleKept.Reachable := by
    have hr := (World.Reachable.start [] [] default "main").run keepTuple_accepted
    rwa [keepTuple_run] at hr
  refine ⟨by rw [keepTuple_run], emptyTuple_evaluate, (run_evaluate _ "x * 0" hk).2.2.2.2 ?_⟩
  refine ⟨?_, 0, ?_, ?_⟩
  · rw [isLone, emptyTuple_read]
    rfl
  · rw [emptyTuple_evaluate]
  · rw [emptyTuple_evaluate]
    rfl

end BraceScript
