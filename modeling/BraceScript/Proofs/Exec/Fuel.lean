import BraceScript.Proofs.Exec.CoupledRules

/-!
# Fuel

An evaluation on a machine lacks fuel, or its outcome is the one that it has on every machine of more
fuel.

* `Exec.Below`       an evaluation lacks fuel wherever it differs from another one
* `belowCoupling`    the rules keep this relation
* `exec_mono`, `call_mono`   a machine is below every machine of more fuel
* `evalCallee_value`         what is called is the value of the callee, except for methods of texts and lists
-/

namespace BraceScript

open Exec

variable {α β : Type}

/-- the evaluation lacks fuel wherever it differs from the other one -/
def Exec.Below (x y : Exec α) : Prop := ∀ w, x w = y w ∨ ∃ u, x w = .error .exhausted u

theorem Exec.Below.refl (x : Exec α) : Below x x := fun _ => Or.inl rfl

theorem Exec.Below.trans {x y z : Exec α} (h : Below x y) (h' : Below y z) : Below x z := by
  intro w
  rcases h w with he | hu
  · rw [he]
    exact h' w
  · exact Or.inr hu

/-- an evaluation that has enough fuel ends as the other one does -/
theorem Exec.Below.eq {x y : Exec α} (h : Below x y) {w : World} (hx : ∀ u, x w ≠ .error .exhausted u) : y w = x w := by
  rcases h w with he | ⟨u, hu⟩
  · exact he.symm
  · exact absurd hu (hx u)

theorem Exec.Below.bind {x y : Exec α} {f g : α → Exec β} (h : Below x y)
    (hf : ∀ a, Below (f a) (g a)) : Below (x >>= f) (y >>= g) := by
  intro w
  rw [bind_run, bind_run]
  rcases h w with he | ⟨u, hu⟩
  · rw [← he]
    cases x w with
    | ok a w' => exact hf a w'
    | error s w' => exact Or.inl rfl
  · rw [hu]
    exact Or.inr ⟨u, rfl⟩

theorem Exec.Below.tryCatch {x y : Exec α} {f g : Signal → Exec α} (h : Below x y)
    (hf : ∀ s, Below (f s) (g s)) (he : f .exhausted = throw .exhausted) :
    Below (tryCatch x f) (tryCatch y g) := by
  intro w
  rw [tryCatch_run, tryCatch_run]
  rcases h w with hw | ⟨u, hu⟩
  · rw [← hw]
    cases x w with
    | ok a w' => exact Or.inl rfl
    | error s w' => exact hf s w'
  · rw [hu]
    exact Or.inr ⟨u, congrFun he u⟩

def belowCoupling : Coupling where
  law := .free
  Ends _ _ := True
  Grows := True
  Rel _ _ _ x y := Below x y
  lawful _ := Below.refl _
  raise _ := Below.refl _
  read h := (Below.refl _).bind fun w => h w w.obeys_free
  exhausted _ _ h w := Or.inr (h w)
  bind := Below.bind
  tryCatch h hf := h.tryCatch fun s => hf s trivial
  weaken h := h
  enter h := h
  breakLoop _ := trivial
  continueLoop _ := trivial
  pass _ _ _ := trivial
  bindName _ _ _ _ := Below.refl _
  bindMessage _ _ _ _ := Below.refl _
  fresh _ h := (Below.refl _).bind h

theorem belowCoupling_total : belowCoupling.Total where
  obeys _ _ := trivial
  ends _ _ := trivial
  quiet _ := Below.refl _
  grows := trivial
  global _ _ _ := Below.refl _
  declareClass _ _ _ := Below.refl _
  inGlobals h := (Below.refl _).bind fun w => h w.globals

/-- more fuel does not change the outcome of a tree that had enough -/
theorem exec_mono {n n' : Nat} (hn : n ≤ n') (node : Node) (s : Nat) :
    Below ((machine n).exec node s) ((machine n').exec node s) :=
  (machine_coupled belowCoupling_total hn).exec (l := false) trivial s

/-- more fuel does not change the outcome of a call that had enough -/
theorem call_mono {n n' : Nat} (hn : n ≤ n') (f : Value) (args : List Value) :
    Below ((machine n).call f args) ((machine n').call f args) :=
  (machine_coupled belowCoupling_total hn).call f args

/-! ## callees -/

/-- is it a method of a text or a list? -/
def Callable.isOwn : Callable → Bool
  | .textMethod .. | .listMethod .. => true
  | _ => false

def World.bindsMethod (w : World) : Value → Bool
  | .callable cell => (w.callable cell).isOwn
  | _ => false

theorem bindsMethod_newCallable {c : Callable} {w u : World} {v : Value} (h : newCallable c w = .ok v u) :
    u.bindsMethod v = c.isOwn := by
  cases h
  simp [World.bindsMethod, World.callable]

theorem bindsMethod_getAttribute {object : Value} {attr : String} {f : Callee} (hf : methodOf? object attr = some f)
    {w u : World} {v : Value} (h : getAttribute object attr w = .ok v u) : u.bindsMethod v = true := by
  unfold methodOf? at hf
  split at hf
  · obtain ⟨m, hm, -⟩ := Option.map_eq_some_iff.mp hf
    simp only [getAttribute, hm] at h
    exact bindsMethod_newCallable h
  · obtain ⟨m, hm, -⟩ := Option.map_eq_some_iff.mp hf
    simp only [getAttribute, hm] at h
    exact bindsMethod_newCallable h
  · cases hf

theorem evalCallee_value {n s : Nat} {callee : Node} {w u : World} {f : Value}
    (h : (machine n).exec callee s w = .ok f u) (hf : u.bindsMethod f = false) :
    evalCallee (machine n) s callee w = .ok (.value f) u := by
  unfold evalCallee
  split
  · rename_i object attr
    cases n with
    | zero => cases h
    | succ n =>
      -- the object was evaluated with one step less
      obtain ⟨o, w₁, ho, ha⟩ := bind_ok h
      have hmore : (machine (n + 1)).exec object s w = .ok o w₁ :=
        ((exec_mono (Nat.le_succ n) object s).eq (by rw [ho]; nofun)).trans ho
      have hg : methodOf? o attr = none := by
        cases hg : methodOf? o attr with
        | none => rfl
        | some g =>
          rw [bindsMethod_getAttribute hg ha] at hf
          cases hf
      simp only [bind_run, hmore, hg, ha, pure_run]
  · rw [bind_run, h]
    rfl

end BraceScript
