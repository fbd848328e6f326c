import BraceScript.Proofs.Exec.QuietProgram

/-!
# Coupled machines

The rules of evaluation call back the machine that they are given. A coupling is a relation between
evaluations that is kept by the ways in which rules are put together, so that rules on two machines
whose operations are coupled are coupled themselves. A coupling may look at the scope in which an
evaluation runs (`some s` runs in the scope `s`, `none` runs in scopes of its own) and at whether it runs
in a loop, and may ask that the trees of a program obey a law.

* `Coupling`          a relation between evaluations that is kept by the rules
* `Machine.Coupled`   the operations of two machines are coupled
* `runBlock_coupled`, `callFunction_coupled`, ...   the rules of blocks, branches, loops and calls
-/

namespace BraceScript

open Exec

/-- a relation between evaluations that is kept by the rules -/
structure Coupling where
  /-- what the trees of a program obey -/
  law : Law
  /-- the signals that may end an evaluation outside of loops, and in one -/
  Ends : Bool → Signal → Prop
  /-- may the second machine have more fuel? -/
  Grows : Prop
  Rel : Option Nat → Bool → {α : Type} → Exec α → Exec α → Prop
  lawful {s : Option Nat} {l : Bool} {α : Type} {x : Exec α} : x.Lawful law → Rel s l x x
  raise {s : Option Nat} {l : Bool} {α : Type} {signal : Signal} : Ends l signal →
    Rel s l (throw signal : Exec α) (throw signal)
  read {s : Option Nat} {l : Bool} {α : Type} {f g : World → Exec α} :
    (∀ w, w.Obeys law → Rel s l (f w) (g w)) → Rel s l (get >>= f) (get >>= g)
  /-- an evaluation that always lacks fuel is coupled with every other one -/
  exhausted {s : Option Nat} {l : Bool} {α : Type} {x : Exec α} (y : Exec α) : Grows →
    (∀ w, ∃ u, x w = .error .exhausted u) → Rel s l x y
  bind {s : Option Nat} {l : Bool} {α β : Type} {x y : Exec α} {f g : α → Exec β} :
    Rel s l x y → (∀ a, Rel s l (f a) (g a)) → Rel s l (x >>= f) (y >>= g)
  /-- handlers do not catch a lack of fuel -/
  tryCatch {s : Option Nat} {l l' : Bool} {α : Type} {x y : Exec α} {f g : Signal → Exec α} :
    Rel s l' x y → (∀ signal, Ends l' signal → Rel s l (f signal) (g signal)) →
    f .exhausted = throw .exhausted → Rel s l (tryCatch x f) (tryCatch y g)
  weaken {s : Option Nat} {l : Bool} {α : Type} {x y : Exec α} : Rel none l x y → Rel s l x y
  enter {s : Option Nat} {l : Bool} {α : Type} {x y : Exec α} : Rel s false x y → Rel s l x y
  breakLoop {l : Bool} : Node.breakLoop.Obeys law l → Ends l .breakLoop
  continueLoop {l : Bool} : Node.continueLoop.Obeys law l → Ends l .continueLoop
  /-- the other signals pass through loops -/
  pass {l : Bool} {signal : Signal} : Ends true signal → signal ≠ .breakLoop →
    signal ≠ .continueLoop → Ends l signal
  bindName (s : Nat) {l : Bool} (name : String) (v : Value) :
    Rel (some s) l (Exec.bindName s name v) (Exec.bindName s name v)
  bindMessage (s : Nat) {l : Bool} (name : Option String) (v : Value) :
    Rel (some s) l (Exec.bindMessage s name v) (Exec.bindMessage s name v)
  /-- what runs in a new scope runs in a scope of its own -/
  fresh {l : Bool} {α : Type} {f g : Nat → Exec α} (sc : Scope) :
    (∀ i, Rel (some i) l (f i) (g i)) → Rel none l (newScope sc >>= f) (newScope sc >>= g)

namespace Coupling

variable {C : Coupling} {s : Option Nat} {l : Bool} {α : Type}

theorem steady {x : Exec α} (h : x.Steady) : C.Rel s l x x := C.lawful h.lawful

protected theorem pure (a : α) : C.Rel s l (pure a) (pure a) := C.steady (steady_pure a)

def Fuel (C : Coupling) (n n' : Nat) : Prop := n = n' ∨ C.Grows ∧ n ≤ n'

theorem Fuel.succ {n k : Nat} (h : C.Fuel (n + 1) k) : ∃ k', k = k' + 1 ∧ C.Fuel n k' := by
  rcases h with rfl | ⟨hg, hk⟩
  · exact ⟨n, rfl, Or.inl rfl⟩
  · exact ⟨k - 1, by omega, Or.inr ⟨hg, by omega⟩⟩

/-- a repetition that always lacks fuel, and one that has some or lacks it too -/
theorem Fuel.zero {k : Nat} (h : C.Fuel 0 k) {x : Exec α} (y : Nat → Exec α)
    (hx : ∀ w, ∃ u, x w = .error .exhausted u) (h0 : C.Rel s l x (y 0)) : C.Rel s l x (y k) := by
  rcases h with rfl | ⟨hg, hk⟩
  · exact h0
  · exact C.exhausted _ hg hx

end Coupling

/-- the operations of two machines are coupled -/
structure Machine.Coupled (C : Coupling) (m m' : Machine) : Prop where
  exec {node : Node} {l : Bool} (hn : node.Obeys C.law l) (s : Nat) :
    C.Rel (some s) l (m.exec node s) (m'.exec node s)
  call (f : Value) (args : List Value) : C.Rel none false (m.call f args) (m'.call f args)
  fuel : C.Fuel m.fuel m'.fuel

section
variable {C : Coupling} {m m' : Machine} (h : m.Coupled C m') (s : Nat) {l : Bool}
include h

/-! ## operands and updates -/

theorem operands_coupled {left right : Node} (hl : left.Obeys C.law l)
    (hr : right.Obeys C.law l) :
    C.Rel (some s) l (operands m s left right) (operands m' s left right) :=
  C.bind (h.exec hl s) fun _ => C.bind (h.exec hr s) fun _ => C.pure _

theorem evalOption_coupled {o : Option Node} (ho : ∀ t ∈ o.toList, t.Obeys C.law l) :
    C.Rel (some s) l (evalOption m s o) (evalOption m' s o) := by
  cases o with
  | none => exact C.pure _
  | some e => exact h.exec (ho e List.mem_cons_self) s

omit h in
theorem applyUpdate_coupled (op : AugOp) {old value value' : Exec Value} (ho : old.Steady)
    (hv : C.Rel (some s) l value value') :
    C.Rel (some s) l (applyUpdate op old value) (applyUpdate op old value') := by
  cases op with
  | arith op => exact C.bind (C.steady ho) fun a => C.bind hv fun b => C.steady (steady_arith op a b)
  | other sign => exact C.steady (steady_fail nofun)

/-! ## blocks and calls of functions -/

theorem runBlock_coupled (result : Value) {body : List Node}
    (hb : ∀ t ∈ blockSteps body, t.Obeys C.law l) :
    C.Rel (some s) l (runBlock m s result body) (runBlock m' s result body) := by
  induction body generalizing result with
  | nil => exact C.pure result
  | cons statement rest ih =>
    rw [blockSteps_cons, List.forall_mem_append] at hb
    have hs : statement.Obeys C.law l →
        C.Rel (some s) l (m.exec statement s >>= afterStatement m s rest)
          (m'.exec statement s >>= afterStatement m' s rest) := by
      intro hn
      refine C.bind (h.exec hn s) fun v => C.bind (C.steady (steady_returned v)) fun o => ?_
      cases o with
      | none => exact ih v hb.2
      | some u => exact C.pure u
    cases statement with
    | includeFile path =>
      exact C.bind (h.exec (hb.1 _ List.mem_cons_self) s) fun _ => ih result hb.2
    | ret e =>
      rw [runBlock_ret, runBlock_ret]
      exact evalOption_coupled h s hb.1
    | _ => exact hs (hb.1 _ List.mem_cons_self)

theorem callFunction_coupled (cell : Nat) (args : List Value) :
    C.Rel none false (callFunction m cell args) (callFunction m' cell args) := by
  refine C.read fun w hw => C.bind (C.steady (steady_callScope _ args)) fun sc => ?_
  refine C.fresh sc fun i => C.read fun w' _ => ?_
  refine C.bind (C.steady (steady_active _)) fun _ => C.bind (runBlock_coupled h i .null ?_) fun v => ?_
  · exact fun t ht => hw.functions cell t (List.mem_append_left _ ht)
  · exact C.bind (C.steady (steady_active _)) fun _ => C.pure v

/-! ## branches and handlers -/

theorem evalBranches_coupled {branches : List (Option Node × List Node)}
    (hb : ∀ b ∈ branches, ∀ t ∈ b.1.toList ++ blockSteps b.2, t.Obeys C.law l) :
    C.Rel (some s) l (evalBranches m s branches) (evalBranches m' s branches) := by
  induction branches with
  | nil => exact C.pure _
  | cons b rest ih =>
    obtain ⟨c, body⟩ := b
    rw [List.forall_mem_cons, List.forall_mem_append] at hb
    obtain ⟨⟨hc, hb⟩, hr⟩ := hb
    cases c with
    | none => exact runBlock_coupled h s .null hb
    | some c =>
      refine C.bind (h.exec (hc c List.mem_cons_self) s) fun v => ?_
      refine C.bind (C.steady (steady_truth v)) fun t => ?_
      cases t with
      | true => exact runBlock_coupled h s .null hb
      | false => exact ih hr

theorem matchesAny_coupled (v : Value) {patterns : List Node}
    (hp : ∀ t ∈ patterns, t.Obeys C.law l) :
    C.Rel (some s) l (matchesAny m s v patterns) (matchesAny m' s v patterns) := by
  induction patterns with
  | nil => exact C.pure _
  | cons p rest ih =>
    rw [List.forall_mem_cons] at hp
    refine C.bind (h.exec hp.1 s) fun u => C.read fun w _ => ?_
    split
    · exact C.pure _
    · exact ih hp.2

theorem evalCases_coupled (v : Value) {cases : List (List Node × List Node)}
    (hc : ∀ c ∈ cases, ∀ t ∈ c.1 ++ blockSteps c.2, t.Obeys C.law l) :
    C.Rel (some s) l (evalCases m s v cases) (evalCases m' s v cases) := by
  induction cases with
  | nil => exact C.pure _
  | cons b rest ih =>
    obtain ⟨patterns, body⟩ := b
    rw [List.forall_mem_cons, List.forall_mem_append] at hc
    obtain ⟨⟨hp, hb⟩, hr⟩ := hc
    cases patterns with
    | nil => exact runBlock_coupled h s .null hb
    | cons p ps =>
      refine C.bind (matchesAny_coupled h s v hp) fun t => ?_
      cases t with
      | true => exact runBlock_coupled h s .null hb
      | false => exact ih hr

theorem evalTry_coupled (name : Option String) {body handler : List Node}
    (hb : ∀ t ∈ blockSteps body, t.Obeys C.law l) (hh : ∀ t ∈ blockSteps handler, t.Obeys C.law l) :
    C.Rel (some s) l (evalTry m s name body handler) (evalTry m' s name body handler) := by
  refine C.read fun w _ => ?_
  refine C.tryCatch (runBlock_coupled h s .null hb) (fun signal _ => ?_) rfl
  split
  · exact C.steady steady_exhausted
  · refine C.bind (C.steady (steady_query fun w => w.known_signalText _)) fun text => ?_
    refine C.bind (C.bindMessage s name _) fun _ => C.bind (runBlock_coupled h s .null hh) fun v => ?_
    exact C.bind (C.steady (steady_active _)) fun _ => C.pure v

/-! ## loops -/

omit h in
/-- a turn of a loop keeps the signals that steer the loop from what is around it -/
theorem loopTurn_coupled {body body' : Exec Value} (hb : C.Rel (some s) true body body') :
    C.Rel (some s) l (loopTurn body) (loopTurn body') := by
  refine C.read fun w _ => ?_
  refine C.tryCatch (C.bind hb fun _ => C.pure _) (fun signal hs => ?_) rfl
  split
  · exact C.steady (steady_bind (steady_active _) fun _ => steady_pure _)
  · exact C.steady (steady_bind (steady_active _) fun _ => steady_pure _)
  · rename_i hc hb
    exact C.raise (C.pass hs hb hc)

theorem forPlaces_coupled (var : String) (iterable : Value) {body : List Node}
    (hb : ∀ t ∈ blockSteps body, t.Obeys C.law true) (places : List Int) :
    C.Rel (some s) l (forPlaces m s var iterable body places)
      (forPlaces m' s var iterable body places) := by
  induction places with
  | nil => exact C.pure _
  | cons i rest ih =>
    refine C.bind (C.steady (steady_element _ _)) fun item => C.bind (C.bindName s var item) fun _ => ?_
    refine C.bind (loopTurn_coupled s (runBlock_coupled h s .null hb)) fun t => ?_
    cases t with
    | true => exact ih
    | false => exact C.pure _

theorem evalFor_coupled (var : String) {iterable : Node} {step : Option Node} {body : List Node}
    (hi : iterable.Obeys C.law l) (hs : ∀ t ∈ step.toList, t.Obeys C.law l)
    (hb : ∀ t ∈ blockSteps body, t.Obeys C.law true) :
    C.Rel (some s) l (evalFor m s var iterable step body) (evalFor m' s var iterable step body) := by
  have hl : ∀ (cell : Nat) (t : Value), C.Rel (some s) l
      (do
        let places ← stepPlaces ((← get).list cell).size t
        forPlaces m s var (.list cell) body places)
      (do
        let places ← stepPlaces ((← get).list cell).size t
        forPlaces m' s var (.list cell) body places) := by
    intro cell t
    refine C.read fun w _ => C.bind (C.steady (steady_stepPlaces _ t)) fun ps => ?_
    exact forPlaces_coupled h s var _ hb ps
  refine C.bind (h.exec hi s) fun v => ?_
  cases v with
  | list cell =>
    cases step with
    | none => exact C.bind (C.pure _) fun t => hl cell t
    | some e => exact C.bind (h.exec (hs e List.mem_cons_self) s) fun t => hl cell t
  | _ =>
    cases step with
    | none => exact C.steady (steady_bind (steady_pure _) fun _ => steady_fail nofun)
    | some e => exact C.bind (h.exec (hs e List.mem_cons_self) s) fun _ => C.steady (steady_fail nofun)

theorem whileTurns_coupled {condition : Node} {body : List Node}
    (hc : condition.Obeys C.law l) (hb : ∀ t ∈ blockSteps body, t.Obeys C.law true) {fuel fuel' : Nat}
    (hf : C.Fuel fuel fuel') : C.Rel (some s) l (whileTurns m s condition body fuel)
      (whileTurns m' s condition body fuel') := by
  induction fuel generalizing fuel' with
  | zero => exact hf.zero (whileTurns m' s condition body) (fun w => ⟨w, rfl⟩) (C.steady steady_exhausted)
  | succ fuel ih =>
    obtain ⟨k, rfl, hk⟩ := hf.succ
    refine C.bind (h.exec hc s) fun v => C.bind (C.steady (steady_truth v)) fun t => ?_
    cases t with
    | false => exact C.pure _
    | true =>
      refine C.bind (loopTurn_coupled s (runBlock_coupled h s .null hb)) fun again => ?_
      cases again with
      | true => exact ih hk
      | false => exact C.pure _

end

end BraceScript
