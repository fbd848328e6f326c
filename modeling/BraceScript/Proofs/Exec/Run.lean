import BraceScript.Eval.Exec

/-!
# Runs of evaluations

What the steps of an evaluation do to the state that they start from, and the steps of a block.

* `Exec.bind_run`, `Exec.tryCatch_run`, ...   the steps of an evaluation
* `runBlock_ret`, `runBlock_statement`        the steps of a block
* `machine_exec`, `machine_call`              the steps of a machine
-/

namespace BraceScript

namespace Exec

variable {α β : Type}

/-! ## the steps of an evaluation -/

@[simp] theorem bind_run (x : Exec α) (f : α → Exec β) (w : World) :
    (x >>= f) w = match x w with
      | .ok a w' => f a w'
      | .error s w' => .error s w' := by
  show EStateM.bind x f w = _
  unfold EStateM.bind
  cases x w <;> rfl

theorem bind_ok {x : Exec α} {f : α → Exec β} {w u : World} {b : β} (h : (x >>= f) w = .ok b u) :
    ∃ a v, x w = .ok a v ∧ f a v = .ok b u := by
  rw [bind_run] at h
  cases hx : x w with
  | ok a v =>
    rw [hx] at h
    exact ⟨a, v, rfl, h⟩
  | error s v =>
    rw [hx] at h
    cases h

@[simp] theorem map_run (f : α → β) (x : Exec α) (w : World) :
    (f <$> x) w = match x w with
      | .ok a w' => .ok (f a) w'
      | .error s w' => .error s w' := by
  show EStateM.map f x w = _
  unfold EStateM.map
  cases x w <;> rfl

@[simp] theorem pure_run (a : α) (w : World) : (pure a : Exec α) w = .ok a w := rfl

@[simp] theorem get_run (w : World) : (get : Exec World) w = .ok w w := rfl

@[simp] theorem throw_run (s : Signal) (w : World) : (throw s : Exec α) w = .error s w := rfl

@[simp] theorem modify_run (f : World → World) (w : World) :
    (modify f : Exec Unit) w = .ok ⟨⟩ (f w) := rfl

theorem modifyGet_run (f : World → α × World) (w : World) :
    (modifyGet f : Exec α) w = .ok (f w).1 (f w).2 := rfl

@[simp] theorem tryCatch_run (x : Exec α) (handle : Signal → Exec α) (w : World) :
    (tryCatch x handle) w = match x w with
      | .ok a w' => .ok a w'
      | .error s w' => handle s w' := by
  show EStateM.tryCatch x handle w = _
  delta EStateM.tryCatch
  dsimp only
  cases x w <;> rfl

@[simp] theorem ite_run (c : Prop) [Decidable c] (x y : Exec α) (w : World) :
    (if c then x else y) w = if c then x w else y w := by
  split <;> rfl

/-- an evaluation that goes on from the same result goes on alike -/
theorem bind_congr {x y : Exec α} {w w' : World} (h : x w = y w') (f : α → Exec β) :
    (x >>= f) w = (y >>= f) w' := by
  rw [bind_run, bind_run, h]

end Exec

/-! ## the steps of a block -/

def afterStatement (m : Machine) (scope : Nat) (rest : List Node) (v : Value) : Exec Value := do
  match ← returned? v with
  | some u => return u
  | none => runBlock m scope v rest

/-- is a statement one that a block treats as every other? -/
def Node.isOrdinary : Node → Bool
  | .includeFile _ => false
  | .ret _ => false
  | _ => true

theorem runBlock_statement (m : Machine) (scope : Nat) (result : Value) {s : Node}
    (h : s.isOrdinary = true) (rest : List Node) :
    runBlock m scope result (s :: rest) = m.exec s scope >>= afterStatement m scope rest := by
  cases s with
  | includeFile path => cases h
  | ret e => cases h
  | _ => rfl

theorem runBlock_ret (m : Machine) (scope : Nat) (result : Value) (e : Option Node)
    (rest : List Node) : runBlock m scope result (.ret e :: rest) = evalOption m scope e := by
  cases e <;> rfl

/-! ## the steps of a machine -/

theorem machine_exec (n : Nat) (node : Node) (scope : Nat) :
    (machine (n + 1)).exec node scope = execNode (machine n) scope node := rfl

theorem machine_call (n : Nat) (f : Value) (args : List Value) :
    (machine (n + 1)).call f args = callValue (machine n) f args := rfl

end BraceScript
