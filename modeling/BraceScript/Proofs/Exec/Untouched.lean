import BraceScript.Proofs.Exec.Bindings
import BraceScript.Proofs.Exec.Fuel

/-!
# What a run leaves untouched

A program that runs in a scope writes to that scope, to scopes of its own, and to the scope of global
variables. The last one it reaches only through declarations and through the defaults of fields.

* `EndsIn`              the state that an outcome leaves behind
* `Untouched`           what a run leaves as it was
* `untouchedCoupling`   the rules leave scopes untouched
* `evalGlobal_untouched`, `declareClass_untouched`   what declarations leave untouched
-/

namespace BraceScript

open Exec

/-! ## scopes -/

namespace Scope

/-- the value bound to a name, or the message kept without a name -/
def binding? (s : Scope) : Option String → Option Value
  | some name => s.find? name
  | none => s.unnamed

/-- binding a name keeps every other binding -/
theorem binding_insert {name : String} {key : Option String} (h : key ≠ some name) (s : Scope)
    (v : Value) : (s.insert name v).binding? key = s.binding? key := by
  cases key with
  | none =>
    unfold insert
    split <;> rfl
  | some other =>
    have hn : other ≠ name := fun e => h (by rw [e])
    show (s.insert name v).find? other = s.find? other
    rw [find?_insert, if_neg hn]

end Scope

namespace World

def modifyScope (w : World) (s : Nat) (f : Scope → Scope) : World :=
  { w with scopes := w.scopes.modify s f }

theorem scope_modifyScope (w : World) {s i : Nat} (h : i ≠ s) (f : Scope → Scope) :
    (w.modifyScope s f).scope i = w.scope i := by
  simp [scope, modifyScope, Array.getD_eq_getD_getElem?, Array.getElem?_modify, h.symm]

theorem scope_modifyScope_self (w : World) {s : Nat} (h : s < w.scopes.size) (f : Scope → Scope) :
    (w.modifyScope s f).scope s = f (w.scope s) := by
  rw [scope, modifyScope, Array.getD_eq_getD_getElem?, Array.getElem?_modify, if_pos rfl]
  simp [scope, h]

theorem size_modifyScope (w : World) (s : Nat) (f : Scope → Scope) :
    (w.modifyScope s f).scopes.size = w.scopes.size := Array.size_modify

theorem scope_push (w : World) (sc : Scope) {i : Nat} (h : i < w.scopes.size) :
    ({ w with scopes := w.scopes.push sc } : World).scope i = w.scope i := by
  simp [scope, Array.getD_eq_getD_getElem?, Array.getElem?_push_lt, h]

end World

/-! ## outcomes -/

/-- the state that an outcome leaves behind; a run that lacks fuel has none -/
inductive EndsIn {α : Type} : EStateM.Result Signal World α → World → Prop
  | value (a : α) (w : World) : EndsIn (.ok a w) w
  | signal {s : Signal} (h : s ≠ .exhausted) (w : World) : EndsIn (.error s w) w

section
variable {α β : Type} {w w' : World}

theorem endsIn_after {x : Exec α} (h : EndsIn (x w) w') : w' = x.after w := by
  unfold Exec.after
  cases hx : x w <;> rw [hx] at h <;> cases h <;> rfl

theorem endsIn_bind {x : Exec α} {f : α → Exec β} (h : EndsIn ((x >>= f) w) w') :
    EndsIn (x w) w' ∨ ∃ a u, EndsIn (x w) u ∧ EndsIn (f a u) w' := by
  rw [bind_run] at h
  cases hx : x w with
  | ok a u =>
    rw [hx] at h
    exact Or.inr ⟨a, u, .value a u, h⟩
  | error s u =>
    rw [hx] at h
    cases h with
    | signal hs => exact Or.inl (.signal hs _)

/-- an evaluation that goes on after one that leaves scopes alone -/
theorem endsIn_quiet_bind {x : Exec α} {f : α → Exec β} (hx : x.Quiet)
    (h : EndsIn ((x >>= f) w) w') :
    SameScopes w w' ∨ ∃ a u, SameScopes w u ∧ EndsIn (f a u) w' := by
  rcases endsIn_bind h with h | ⟨a, u, hu, h⟩
  · exact Or.inl (endsIn_after h ▸ hx.after w)
  · exact Or.inr ⟨a, u, endsIn_after hu ▸ hx.after w, h⟩

theorem endsIn_tryCatch {x : Exec α} {f : Signal → Exec α} (he : f .exhausted = throw .exhausted)
    (h : EndsIn (tryCatch x f w) w') :
    EndsIn (x w) w' ∨ ∃ s u, EndsIn (x w) u ∧ EndsIn (f s u) w' := by
  rw [tryCatch_run] at h
  cases hx : x w with
  | ok a u =>
    rw [hx] at h
    exact Or.inl h
  | error s u =>
    rw [hx] at h
    by_cases hs : s = .exhausted
    · subst hs
      have ht : EndsIn ((throw .exhausted : Exec α) u) w' := he ▸ h
      cases ht with
      | signal hn => exact absurd rfl hn
    · exact Or.inr ⟨s, u, .signal hs u, h⟩

end

/-! ## runs in a scope -/

/-- what a run in the scope `s`, or in scopes of its own, leaves as it was: every other scope apart from
the global variables, the kept bindings of the global variables, and what was made before that can be
called -/
structure Untouched (kept : Option String → Prop) (s : Option Nat) (w w' : World) : Prop where
  globals : w'.globals = w.globals
  grows : w.scopes.size ≤ w'.scopes.size
  others (i : Nat) : i < w.scopes.size → i ≠ w.globals → s ≠ some i → w'.scope i = w.scope i
  bindings (key : Option String) : kept key → w.globals < w.scopes.size → s ≠ some w.globals →
    (w'.scope w.globals).binding? key = (w.scope w.globals).binding? key
  makes : w.Makes w'

namespace Untouched

variable {kept : Option String → Prop} {s : Option Nat} {w w₁ w₂ : World}

theorem of_sameScopes (h : SameScopes w w₁) : Untouched kept s w w₁ := by
  have hs : ∀ i, w₁.scope i = w.scope i := fun i => by rw [World.scope, h.scopes, World.scope]
  exact ⟨h.globals, h.scopes ▸ Nat.le_refl _, fun i _ _ _ => hs i, fun _ _ _ _ => by rw [hs],
    h.makes⟩

theorem trans (h : Untouched kept s w w₁) (h' : Untouched kept s w₁ w₂) : Untouched kept s w w₂ where
  globals := h'.globals.trans h.globals
  grows := Nat.le_trans h.grows h'.grows
  others i hi hg hs :=
    (h'.others i (Nat.lt_of_lt_of_le hi h.grows) (h.globals ▸ hg) hs).trans (h.others i hi hg hs)
  bindings key hk hg hs := by
    have hb := h'.bindings key hk (h.globals ▸ Nat.lt_of_lt_of_le hg h.grows) (h.globals ▸ hs)
    rw [h.globals] at hb
    exact hb.trans (h.bindings key hk hg hs)
  makes := h.makes.trans h'.makes

theorem weaken (h : Untouched kept none w w₁) : Untouched kept s w w₁ where
  globals := h.globals
  grows := h.grows
  others i hi hg _ := h.others i hi hg nofun
  bindings key hk hg _ := h.bindings key hk hg nofun
  makes := h.makes

theorem modifyScope (w : World) (i : Nat) (f : Scope → Scope) :
    Untouched kept (some i) w (w.modifyScope i f) where
  globals := rfl
  grows := Nat.le_of_eq (w.size_modifyScope i f).symm
  others j _ _ hs := w.scope_modifyScope (fun e => hs (by rw [e])) f
  bindings key _ _ hs := by rw [w.scope_modifyScope (fun e => hs (by rw [e])) f]
  makes := .of_eq rfl rfl

/-- binding a global variable keeps the bindings of the others -/
theorem bindGlobal {name : String} (hn : ¬ kept (some name)) (w : World) (v : Value) :
    Untouched kept s w (w.modifyScope w.globals (·.insert name v)) where
  globals := rfl
  grows := Nat.le_of_eq (w.size_modifyScope _ _).symm
  others j _ hg _ := w.scope_modifyScope hg _
  bindings key hk hg _ := by
    rw [w.scope_modifyScope_self hg]
    exact Scope.binding_insert (fun e => hn (e ▸ hk)) _ v
  makes := .of_eq rfl rfl

/-- what runs in a new scope runs in a scope of its own -/
theorem fresh {sc : Scope} (h : Untouched kept (some w.scopes.size)
    { w with scopes := w.scopes.push sc } w₁) : Untouched kept none w w₁ where
  globals := h.globals
  grows := by
    have hg := h.grows
    rw [Array.size_push] at hg
    omega
  others i hi hg _ := by
    have ho := h.others i (by rw [Array.size_push]; omega) hg fun e => by
      rw [Option.some.injEq] at e
      omega
    exact ho.trans (w.scope_push sc hi)
  bindings key hk hg _ := by
    have hb := h.bindings key hk (by rw [Array.size_push]; exact Nat.lt_succ_of_lt hg) fun e => by
      rw [Option.some.injEq] at e
      exact Nat.ne_of_gt hg e
    exact hb.trans (by rw [w.scope_push sc hg])
  makes := ⟨h.makes.functions, h.makes.callables⟩

end Untouched

/-- the runs of an evaluation leave scopes untouched -/
def Exec.Spares {α : Type} (kept : Option String → Prop) (s : Option Nat) (x : Exec α) : Prop :=
  ∀ w w', EndsIn (x w) w' → Untouched kept s w w'

section
variable {kept : Option String → Prop} {s : Option Nat} {α β : Type}

theorem Exec.Spares.of_quiet {x : Exec α} (h : x.Quiet) : x.Spares kept s := by
  intro w w' he
  rw [endsIn_after he]
  exact .of_sameScopes (h.after w)

theorem Exec.Spares.bind {x : Exec α} {f : α → Exec β} (h : x.Spares kept s)
    (hf : ∀ a, (f a).Spares kept s) : (x >>= f).Spares kept s := by
  intro w w' he
  rcases endsIn_bind he with he | ⟨a, u, hu, he⟩
  · exact h w w' he
  · exact (h w u hu).trans (hf a u w' he)

theorem Exec.Spares.tryCatch {x : Exec α} {f : Signal → Exec α} (h : x.Spares kept s)
    (hf : ∀ a, (f a).Spares kept s) (hx : f .exhausted = throw .exhausted) :
    (tryCatch x f).Spares kept s := by
  intro w w' he
  rcases endsIn_tryCatch hx he with he | ⟨a, u, hu, he⟩
  · exact h w w' he
  · exact (h w u hu).trans (hf a u w' he)

theorem Exec.Spares.modify {f : World → World} (h : ∀ w, Untouched kept s w (f w)) :
    (modify f : Exec Unit).Spares kept s := by
  intro w w' he
  cases he
  exact h w

def untouchedCoupling (kept : Option String → Prop) : Coupling where
  law := .free
  Ends _ _ := True
  Grows := True
  Rel s _ _ x _ := x.Spares kept s
  lawful h := .of_quiet h.quiet
  raise _ := .of_quiet (runs_throw trivial)
  read h := (Spares.of_quiet steady_get.quiet).bind fun w => h w w.obeys_free
  exhausted _ _ h w w' he := by
    obtain ⟨u, hu⟩ := h w
    rw [hu] at he
    cases he with
    | signal hs => exact absurd rfl hs
  bind h hf := h.bind hf
  tryCatch h hf hx := h.tryCatch (fun s => hf s trivial) hx
  weaken h w w' he := (h w w' he).weaken
  enter h := h
  breakLoop _ := trivial
  continueLoop _ := trivial
  pass _ _ _ := trivial
  bindName i _ _ _ := .modify fun w => .modifyScope w i _
  bindMessage i _ name _ := by
    cases name <;> exact .modify fun w => .modifyScope w i _
  fresh _ h w w' he := (h w.scopes.size _ w' he).fresh

theorem untouchedCoupling_loose (kept : Option String → Prop) : (untouchedCoupling kept).Loose where
  obeys _ _ := trivial
  ends _ _ := trivial
  quiet h := .of_quiet h

/-! ## declarations -/

/-- a name that is made visible is bound in the scope, and among the global variables if it is new -/
theorem evalGlobal_untouched {i : Nat} {name : String} {w w' : World}
    (h : ((w.scope w.globals).find? name).isSome ∨ ¬ kept (some name))
    (he : EndsIn (evalGlobal i name w) w') : Untouched kept (some i) w w' := by
  rw [evalGlobal, bind_run, get_run] at he
  dsimp only at he
  cases hf : (w.scope w.globals).find? name with
  | some v =>
    rw [hf] at he
    cases he
    exact .modifyScope w i _
  | none =>
    rw [hf] at he
    have hn : ¬ kept (some name) := h.resolve_left (by rw [hf]; nofun)
    cases he
    exact (Untouched.bindGlobal hn w .null).trans (.modifyScope _ i _)

/-- the constructor of a class is bound among the global variables -/
theorem declareClass_untouched {c : ClassDecl Node} {w w' : World} (h : ¬ kept (some c.name))
    (he : EndsIn (declareClass c w) w') : Untouched kept s w w' := by
  rw [declareClass, bind_run, get_run] at he
  dsimp only at he
  -- the class is registered before its name is bound, and this leaves scopes alone
  have hr := lawful_registerClass (L := .free) w.globals none w.classes c fun _ _ _ _ _ _ => trivial
  rcases endsIn_quiet_bind hr.quiet he with hs | ⟨t, w₁, h₁, he⟩
  · exact .of_sameScopes hs
  rcases endsIn_quiet_bind (runs_modifyGet fun _ => ⟨rfl, rfl, .of_eq rfl rfl⟩) he with hs | ⟨_, w₂, h₂, he⟩
  · exact .of_sameScopes (h₁.trans hs)
  rcases endsIn_quiet_bind (quiet_newCallable _) he with hs | ⟨made, w₃, h₃, he⟩
  · exact .of_sameScopes ((h₁.trans h₂).trans hs)
  have hu : SameScopes w w₃ := (h₁.trans h₂).trans h₃
  rw [← hu.globals] at he
  cases he
  exact (Untouched.of_sameScopes hu).trans (.bindGlobal h w₃ made)

theorem untouchedCoupling_total : (untouchedCoupling fun _ => False).Total where
  toLoose := untouchedCoupling_loose _
  grows := trivial
  global _ _ _ _ _ he := evalGlobal_untouched (.inr id) he
  declareClass _ _ _ _ _ he := declareClass_untouched id he
  inGlobals h w w' he := by
    have hg := h w.globals w w' he
    exact ⟨hg.globals, hg.grows, fun i hi hn _ => hg.others i hi hn fun e => hn (Option.some.inj e).symm,
      nofun, hg.makes⟩

end

end BraceScript
