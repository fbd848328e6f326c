import BraceScript.Proofs.Control.Enclosure

/-!
# Returning from inside a function

A return ends the block that it stands in, and nothing more: the value goes on to the statement around
the block as the value of an ordinary block. So a call ends at a return exactly when nothing is left to
do around it, and otherwise goes on with what is left of the innermost statement that is not at its end.

* `Frame`       a statement around a block, with the statements after it
* `Arrives`     a block comes to run statements, inside a list of frames
* `Reaches`     a block comes to a return, inside a list of frames
* `Reaches.run` the block then is the returned expression with the frames closed around it
* `call_return` the outcome of a call that comes to a return
-/

namespace BraceScript

variable {w w₁ : World} {body : List Node}

/-! ## frames -/

/-- a statement around a block and the statements after it -/
structure Frame where
  around : Enclosure
  rest : List Node

namespace Frame

/-- run a block, finish the statement around it and go on with the statements after, which the machine
of more fuel executes -/
def close (fuel scope : Nat) (f : Frame) (inner : Exec Value) : Exec Value :=
  f.around.finish (machine fuel) scope inner >>= afterStatement (machine (fuel + 1)) scope f.rest

/-- what is left to do of a frame whose block gave a value. A loop drops the value. -/
def goOn (fuel scope : Nat) (v : Value) (f : Frame) : Exec Value :=
  match f.around with
  | .forTurn var iterable body places _ =>
    forPlaces (machine fuel) scope var iterable body places >>=
      afterStatement (machine (fuel + 1)) scope f.rest
  | .whileTurn condition body turns _ =>
    whileTurns (machine fuel) scope condition body turns >>=
      afterStatement (machine (fuel + 1)) scope f.rest
  | _ => runBlock (machine (fuel + 1)) scope v f.rest

/-- the state after the block of a frame gave a value: at the end of a handler the calls that were cut
off are gone -/
def leave (w : World) (f : Frame) : World :=
  match f.around with
  | .handler active => { w with active := active }
  | _ => w

/-- is nothing left to do? The statement is no loop and the last one of its block. -/
def isLast (f : Frame) : Bool :=
  match f.around with
  | .forTurn .. => false
  | .whileTurn .. => false
  | _ => f.rest.isEmpty

theorem close_congr (fuel scope : Nat) {x y : Exec Value} {w' : World} (h : x w = y w')
    (f : Frame) : f.close fuel scope x w = f.close fuel scope y w' :=
  Exec.bind_congr (f.around.finish_congr (machine fuel) scope h) _

end Frame

/-- the frames around a block, the innermost first, closed around it -/
def closeAll (scope : Nat) : Nat → List Frame → Exec Value → Exec Value
  | _, [], inner => inner
  | fuel, f :: fs, inner => closeAll scope (fuel + 1) fs (f.close fuel scope inner)

/-- the state after the blocks of frames gave a value -/
def leaveAll (frames : List Frame) (w : World) : World := frames.foldl Frame.leave w

theorem leaveAll_snoc (frames : List Frame) (f : Frame) (w : World) :
    leaveAll (frames ++ [f]) w = (f.leave (leaveAll frames w)) :=
  List.foldl_append ..

/-- leaving frames changes nothing but the active calls -/
theorem leaveAll_active (frames : List Frame) (w : World) (active : List Cell) :
    { leaveAll frames w with active := active } = { w with active := active } := by
  induction frames generalizing w with
  | nil => rfl
  | cons f fs ih =>
    refine (ih (f.leave w)).trans ?_
    obtain ⟨around, rest⟩ := f
    cases around <;> rfl

theorem closeAll_congr (scope fuel : Nat) (frames : List Frame) {x y : Exec Value} {w' : World}
    (h : x w = y w') : closeAll scope fuel frames x w = closeAll scope fuel frames y w' := by
  induction frames generalizing fuel x y with
  | nil => exact h
  | cons f fs ih => exact ih (fuel + 1) (f.close_congr fuel scope h)

theorem closeAll_snoc (scope fuel : Nat) (frames : List Frame) (f : Frame) (x : Exec Value) :
    closeAll scope fuel (frames ++ [f]) x =
      f.close (fuel + frames.length) scope (closeAll scope fuel frames x) := by
  induction frames generalizing fuel x with
  | nil => rfl
  | cons g fs ih =>
    rw [List.cons_append, closeAll, ih, List.length_cons, closeAll]
    congr 1
    omega

/-! ## arriving inside frames -/

/-- a block that the machine of a fuel runs comes to run statements inside frames, with some fuel left:
every statement before is executed to its end, and the statements around are entered -/
inductive Arrives (scope : Nat) :
    Nat → List Node → World → List Frame → List Node → Nat → World → Prop
  | here {n left w} : Arrives scope n left w [] left n w
  | included {n path rest v w w₁ frames left k w₂}
      (run : (machine n).exec (.includeFile path) scope w = .ok v w₁)
      (arrives : Arrives scope n rest w₁ frames left k w₂) :
      Arrives scope n (.includeFile path :: rest) w frames left k w₂
  | next {n s rest v w w₁ frames left k w₂} (ordinary : s.isOrdinary = true)
      (run : (machine n).exec s scope w = .ok v w₁) (unmarked : returned? v w₁ = .ok none w₁)
      (arrives : Arrives scope n rest w₁ frames left k w₂) :
      Arrives scope n (s :: rest) w frames left k w₂
  | inside {n s rest around body w w₁ frames left k w₂}
      (enters : Enters (machine n) scope s w around body w₁)
      (arrives : Arrives scope n body w₁ frames left k w₂) :
      Arrives scope (n + 1) (s :: rest) w (frames ++ [⟨around, rest⟩]) left k w₂

theorem Enters.ordinary {m : Machine} {scope : Nat} {s : Node} {around : Enclosure}
    (h : Enters m scope s w around body w₁) : s.isOrdinary = true := by
  cases h <;> rfl

theorem Arrives.fuel {scope n k : Nat} {left : List Node} {frames : List Frame}
    (h : Arrives scope n body w frames left k w₁) : n = k + frames.length := by
  induction h with
  | here => rfl
  | included _ _ ih => exact ih
  | next _ _ _ _ ih => exact ih
  | inside _ _ ih => rw [ih, List.length_append, List.length_singleton, Nat.add_assoc]

/-- **A block that comes to run statements is these statements with the frames closed around them**; what
they start from does not matter if their outcome does not depend on it. -/
theorem Arrives.run {scope n k : Nat} {left : List Node} {frames : List Frame}
    (h : Arrives scope n body w frames left k w₁) {inner : Exec Value}
    (hi : ∀ r, runBlock (machine k) scope r left w₁ = inner w₁) (result : Value) :
    runBlock (machine n) scope result body w = closeAll scope k frames inner w₁ := by
  induction h generalizing result with
  | here => exact hi result
  | included run _ ih =>
    rw [runBlock, Exec.bind_run, run]
    exact ih hi result
  | next ordinary run unmarked _ ih =>
    rw [runBlock_statement _ _ _ ordinary, Exec.bind_run, run]
    simp only [afterStatement, Exec.bind_run, unmarked]
    exact ih hi _
  | @inside n s rest around body w w₁ frames left k w₂ enters arrives ih =>
    -- the statement runs its block with the smaller machine, and what is around it closes the frame
    rw [runBlock_statement _ _ _ enters.ordinary, closeAll_snoc, ← arrives.fuel]
    exact Exec.bind_congr (enters.run.trans (around.finish_congr _ scope (ih hi .null))) _

/-! ## reaching a return -/

/-- a block that the machine of a fuel runs comes to a return of an expression, inside frames and with some fuel
left -/
def Reaches (scope n : Nat) (body : List Node) (w : World) (frames : List Frame) (e : Option Node) (k : Nat)
    (w₁ : World) : Prop :=
  ∃ rest, Arrives scope n body w frames (.ret e :: rest) k w₁

/-- **A block that comes to a return is the returned expression with the frames closed around it.** -/
theorem Reaches.run {scope n k : Nat} {frames : List Frame} {e : Option Node}
    (h : Reaches scope n body w frames e k w₁) (result : Value) : runBlock (machine n) scope result body w =
      closeAll scope k frames (evalOption (machine k) scope e) w₁ := by
  obtain ⟨rest, ha⟩ := h
  exact ha.run (fun r => by rw [runBlock_ret]) result

/-! ## after the return -/

section
variable {scope fuel : Nat} {v : Value} {w : World}

theorem returned_active {o : Option Value} (h : returned? v w = .ok o w) (active : List Cell) :
    returned? v { w with active := active } = .ok o { w with active := active } := by
  cases v with
  | tuple cell =>
    have ht : ({ w with active := active } : World).tuple cell = w.tuple cell := rfl
    simp only [returned?, Exec.bind_run, Exec.get_run] at h ⊢
    rw [ht]
    cases hc : w.tuple cell with
    | nil => simp [hc, Exec.fail] at h
    | cons mark rest =>
      simp only [hc, Exec.ite_run] at h ⊢
      split at h
      · cases rest with
        | nil => cases h
        | cons u us => rw [if_pos ‹_›]; cases h; rfl
      · rw [if_neg ‹_›]; cases h; rfl
  | _ => cases h; rfl

theorem Frame.unmarked_leave (h : returned? v w = .ok none w) (f : Frame) :
    returned? v (f.leave w) = .ok none (f.leave w) := by
  obtain ⟨around, rest⟩ := f
  cases around with
  | handler active => exact returned_active h active
  | _ => exact h

theorem Frame.close_value (h : returned? v w = .ok none w) (f : Frame) :
    f.close fuel scope (pure v) w = f.goOn fuel scope v (f.leave w) := by
  have hl := f.unmarked_leave h
  obtain ⟨around, rest⟩ := f
  cases around with
  | branch => simp_all [close, Enclosure.finish, afterStatement, goOn, leave]
  | attempt name recovery active =>
    simp_all [close, Enclosure.finish, afterStatement, goOn, leave]
  | handler active => simp_all [close, Enclosure.finish, afterStatement, goOn, leave]
  | forTurn var iterable body places active => rfl
  | whileTurn condition body turns active => rfl

theorem Frame.goOn_last {f : Frame} (h : f.isLast = true) : f.goOn fuel scope v = pure v := by
  obtain ⟨around, rest⟩ := f
  cases around with
  | forTurn => cases h
  | whileTurn => cases h
  | _ =>
    obtain rfl : rest = [] := List.isEmpty_iff.mp h
    rfl

theorem closeAll_lasts (scope fuel : Nat) {inner : List Frame} (hi : ∀ f ∈ inner, f.isLast = true)
    (outer : List Frame) (h : returned? v w = .ok none w) :
    closeAll scope fuel (inner ++ outer) (pure v) w =
        closeAll scope (fuel + inner.length) outer (pure v) (leaveAll inner w) ∧
      returned? v (leaveAll inner w) = .ok none (leaveAll inner w) := by
  induction inner generalizing fuel w with
  | nil => exact ⟨rfl, h⟩
  | cons f inner ih =>
    have hf : f.close fuel scope (pure v) w = (pure v : Exec Value) (f.leave w) := by
      rw [f.close_value h, Frame.goOn_last (hi f (List.mem_cons_self ..))]
    obtain ⟨he, hv⟩ := ih (fuel + 1) (fun g hg => hi g (List.mem_cons_of_mem _ hg))
      (f.unmarked_leave h)
    refine ⟨?_, hv⟩
    rw [List.cons_append, closeAll, closeAll_congr scope (fuel + 1) _ hf, he, List.length_cons,
      Nat.add_right_comm, ← Nat.add_assoc]
    rfl

end

/-! ## calls -/

/-- the function of a program that a call of a value runs, with its arguments: a function, or a method
with its object in front -/
def World.closureCall? (w : World) (f : Value) (args : List Value) : Option (Nat × List Value) :=
  match f with
  | .function cell => some (cell, args)
  | .callable cell =>
    match w.callable cell with
    | .method function self => some (function, self :: args)
    | _ => none
  | _ => none

theorem callValue_closure {f : Value} {args : List Value} {cell : Nat} {actual : List Value}
    (h : w.closureCall? f args = some (cell, actual)) (m : Machine) :
    callValue m f args w = callFunction m cell actual w := by
  cases f with
  | function c => cases h; rfl
  | callable c =>
    simp only [World.closureCall?] at h
    split at h
    · rename_i hc
      cases h
      simp [callValue, hc]
    · cases h
  | _ => cases h

/-- the state in which the body of a function starts: its scope is new and active -/
def World.enter (w : World) (s : Scope) : World :=
  { w with scopes := w.scopes.push s, active := .scope w.scopes.size :: w.active }

/-- the body of a function, after which the calls before it are active again -/
def leaving (active : List Cell) (body : Exec Value) : Exec Value := do
  let v ← body
  modify fun w => { w with active := active }
  return v

theorem callFunction_run {m : Machine} {cell : Nat} {args : List Value} {w₀ : World} {s : Scope}
    (h : callScope (w.function cell) args w = .ok s w₀) : callFunction m cell args w =
      leaving w₀.active (runBlock m w₀.scopes.size .null (w.function cell).body) (w₀.enter s) := by
  simp only [callFunction, leaving, Exec.bind_run, Exec.get_run, h]
  rfl

/-- **The outcome of a call that comes to a return.** The call is what is around the return, closed
around the value of the expression. If every statement around it is the last one of its block and none is a
loop, the call gives the value, and nothing else happens. Otherwise the innermost statement that has
something left to do goes on with it. -/
theorem call_return {n k cell : Nat} {f : Value} {args actual : List Value} {w w₀ w₁ w₂ : World}
    {s : Scope} {frames : List Frame} {e : Option Node} {v : Value}
    (hf : w.closureCall? f args = some (cell, actual))
    (hs : callScope (w.function cell) actual w = .ok s w₀)
    (hr : Reaches w₀.scopes.size n (w.function cell).body (w₀.enter s) frames e k w₁)
    (he : evalOption (machine k) w₀.scopes.size e w₁ = .ok v w₂) :
    (machine (n + 1)).call f args w =
        leaving w₀.active (closeAll w₀.scopes.size k frames (pure v)) w₂ ∧
      ((∀ g ∈ frames, g.isLast = true ∧ returned? v w₂ = .ok none w₂) →
        (machine (n + 1)).call f args w = .ok v { w₂ with active := w₀.active }) ∧
      ∀ inner g outer, frames = inner ++ g :: outer → (∀ h ∈ inner, h.isLast = true) →
        returned? v w₂ = .ok none w₂ →
        (machine (n + 1)).call f args w =
          leaving w₀.active (closeAll w₀.scopes.size (k + inner.length + 1) outer
            (g.goOn (k + inner.length) w₀.scopes.size v)) (leaveAll (inner ++ [g]) w₂) := by
  have hc : (machine (n + 1)).call f args w =
      leaving w₀.active (closeAll w₀.scopes.size k frames (pure v)) w₂ := by
    show callValue (machine n) f args w = _
    rw [callValue_closure hf, callFunction_run hs]
    refine Exec.bind_congr ?_ _
    rw [hr.run]
    exact closeAll_congr _ _ _ he
  refine ⟨hc, fun hl => ?_, fun inner g outer hi hl hv => ?_⟩
  · rw [hc]
    cases frames with
    | nil => rfl
    | cons g fs =>
      have hv := (hl g (List.mem_cons_self ..)).2
      obtain ⟨he, _⟩ := closeAll_lasts w₀.scopes.size k (fun g hg => (hl g hg).1) [] hv
      rw [List.append_nil] at he
      rw [← leaveAll_active (g :: fs) w₂]
      exact Exec.bind_congr he _
  · rw [hc, hi]
    obtain ⟨he, hu⟩ := closeAll_lasts w₀.scopes.size k hl (g :: outer) hv
    refine Exec.bind_congr (he.trans ?_) _
    rw [leaveAll_snoc]
    exact closeAll_congr _ _ _ (g.close_value hu)

/-- a state with the function `{ if (1) { return 1 } 2 }` -/
def World.branchReturn : World :=
  { (default : World) with
    scopes := #[default]
    functions := #[⟨[], [.ifChain [(some (.num (.int 1)), [.ret (some (.num (.int 1)))])],
      .num (.int 2)], 0⟩] }

/-- a return in a branch that is not the end of the function: the call goes on after the branch and gives
the value of the last statement -/
theorem call_return_branch :
    (machine 3).call (.function 0) [] World.branchReturn =
      .ok (.int 2) { World.branchReturn with scopes := #[default, default] } := by
  have hs : callScope (World.branchReturn.function 0) [] World.branchReturn =
      .ok default World.branchReturn := rfl
  have hr : Reaches 1 2 (World.branchReturn.function 0).body (World.branchReturn.enter default)
      [⟨.branch, [.num (.int 2)]⟩] (some (.num (.int 1))) 1 (World.branchReturn.enter default) :=
    ⟨[], .inside (.ifChain (.taken rfl rfl)) .here⟩
  have h := (call_return (f := .function 0) rfl hs hr rfl).2.2 [] _ [] rfl (by simp) rfl
  rw [h]
  rfl

end BraceScript
