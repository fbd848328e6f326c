import BraceScript.Proofs.Exec.Untouched

/-!
# Calls are isolated

A call of a function changes no scope that was there before the call, apart from the global variables. To
say what a change of a global variable comes from, a machine is watched: it stops at chosen trees and
calls, and is the machine of the same fuel up to there.

* `watched`            the machine that stops where a watch says
* `World.declares`, `World.needsDefault`   the trees and calls that can bind a global variable
* `call_isolated`      what a call leaves as it was
-/

namespace BraceScript

open Exec

/-! ## watched machines -/

/-- where a machine stops: before a tree that is not a quoted value, and before a call -/
structure Watch where
  node : World → Node → Bool
  call : World → Value → List Value → Bool

def stopIf {α : Type} (stop : World → Bool) (x : Exec α) : Exec α := fun w =>
  if stop w then .error .exhausted w else x w

/-- the machine that stops where a watch says -/
def watched (p : Watch) : Nat → Machine
  | 0 => machine 0
  | n + 1 =>
    ⟨fun node scope => byRule (fun t => stopIf (p.node · t) (execPlain (watched p n) scope t)) node,
      fun f args => stopIf (p.call · f args) (callValue (watched p n) f args), n⟩

theorem below_stopIf {α : Type} (stop : World → Bool) {x y : Exec α} (h : Below x y) :
    Below (stopIf stop x) y := by
  intro w
  unfold stopIf
  split
  · exact Or.inr ⟨w, rfl⟩
  · exact h w

theorem endsIn_stopIf {α : Type} {stop : World → Bool} {x : Exec α} {w w' : World}
    (h : EndsIn (stopIf stop x w) w') : stop w = false ∧ EndsIn (x w) w' := by
  unfold stopIf at h
  split at h
  · cases h with
    | signal hs => exact absurd rfl hs
  · exact ⟨by simpa using ‹¬ stop w = true›, h⟩

theorem watched_coupled {C : Coupling} (hC : C.Loose) (hg : C.Grows) {p : Watch}
    (he : ∀ {m m' : Machine}, m.Coupled C m' → ∀ s l node,
      C.Rel (some s) l (stopIf (p.node · node) (execPlain m s node)) (execPlain m' s node))
    (hc : ∀ {m m' : Machine}, m.Coupled C m' → ∀ f args,
      C.Rel none false (stopIf (p.call · f args) (callValue m f args)) (callValue m' f args)) (n : Nat) :
    (watched p n).Coupled C (machine n) := by
  induction n with
  | zero =>
    exact ⟨fun _ _ => C.exhausted _ hg fun _ => ⟨_, rfl⟩, fun _ _ => C.exhausted _ hg fun _ => ⟨_, rfl⟩,
      Or.inl rfl⟩
  | succ n ih =>
    refine ⟨fun {node l} _ s => ?_, fun f args => hc ih f args, Or.inl rfl⟩
    rw [machine_exec, execNode_byRule]
    exact hC.byRule_coupled (he ih s l) node

/-- a watched machine stops, or its outcome is that of the machine -/
theorem watched_below (p : Watch) (n : Nat) : (watched p n).Coupled belowCoupling (machine n) :=
  watched_coupled belowCoupling_total.toLoose trivial
    (fun h s l node => below_stopIf _ (belowCoupling_total.execPlain_coupled h s l node))
    (fun h f args => below_stopIf _ (belowCoupling_total.callValue_coupled h f args)) n

/-! ## where global variables are bound -/

namespace World

/-- does a tree bind a global variable: a declaration of a name that is not among them, or a class? -/
def declares (key : Option String) (w : World) : Node → Bool
  | .global name => key = some name && ((w.scope w.globals).find? name).isNone
  | .classDef c => key = some c.name
  | _ => false

/-- does a call evaluate the default of a field: a constructor with fewer arguments than fields? -/
def needsDefault (w : World) (f : Value) (args : List Value) : Bool :=
  match f with
  | .callable cell =>
    match w.callable cell with
    | .constructor _ fields _ _ => (fields.drop args.length).any (·.2.isSome)
    | _ => false
  | _ => false

end World

/-- stop where the binding of a global variable could change -/
def changes (key : Option String) : Watch := ⟨World.declares key, World.needsDefault⟩

theorem quiet_fillFields (m : Machine) (qualified : List (String × String)) (d : Dict)
    {fields : List (String × Option Node)} {args : List Value}
    (h : (fields.drop args.length).any (·.2.isSome) = false) :
    Quiet (fillFields m qualified d fields args) := by
  induction fields generalizing d args with
  | nil => exact (steady_pure d).quiet
  | cons f fields ih =>
    obtain ⟨name, value⟩ := f
    cases args with
    | cons v args => exact ih _ h
    | nil =>
      simp only [List.length_nil, List.drop_zero, List.any_cons, Bool.or_eq_false_iff] at h
      cases value with
      | some e => simp at h
      | none => exact ih _ h.2

theorem watched_untouched (key : Option String) (n : Nat) :
    (watched (changes key) n).Coupled (untouchedCoupling (· = key)) (machine n) := by
  have hC := untouchedCoupling_loose (· = key)
  refine watched_coupled hC trivial (fun {m m'} h s l node w w' he => ?_)
    (fun {m m'} h f args w w' he => ?_) n
  · obtain ⟨hs, he⟩ := endsIn_stopIf he
    cases node with
    | global name =>
      refine evalGlobal_untouched ?_ he
      by_cases hk : some name = key
      · exact Or.inl (by simpa [changes, World.declares, hk] using hs)
      · exact Or.inr hk
    | classDef c =>
      exact declareClass_untouched (fun hk => by simp [changes, World.declares, hk] at hs) he
    | _ => exact hC.execPlain_coupled (l := l) h s rfl w w' he
  · obtain ⟨hs, he⟩ := endsIn_stopIf he
    cases f with
    | function cell => exact callFunction_coupled h cell args w w' he
    | builtin b => exact callBuiltin_coupled h b args (fun _ => includeModule_coupled (hC.obeys false) args) w w' he
    | callable cell =>
      refine callCallable_coupled h (w.callable cell) args (fun cn fields q inc hc => ?_) w w' he
      have hd : (fields.drop args.length).any (·.2.isSome) = false := by
        simpa [changes, World.needsDefault, hc] using hs
      exact Spares.of_quiet (quiet_bind (quiet_fillFields m q _ hd) fun d => (steady_newDict d).quiet)
    | _ => exact Spares.of_quiet (quiet_fail _) w w' he

/-! ## calls -/

/-- **Calls are isolated.** Whatever a call of a function ends in, a scope that was there before the
call is as it was, unless it is the scope of global variables. A binding among these changed only if the
call came to a declaration of that name while it was not among them, to a class of that name, or to a
constructor that evaluates the default of a field: the machine that stops there does stop. -/
theorem call_isolated {n cell : Nat} {args : List Value} {w w' : World}
    (h : EndsIn (callFunction (machine n) cell args w) w') :
    (∀ i, i < w.scopes.size → i ≠ w.globals → w'.scope i = w.scope i) ∧
      (w.globals < w.scopes.size → ∀ key,
        (w'.scope w.globals).binding? key ≠ (w.scope w.globals).binding? key →
        ∃ u, callFunction (watched (changes key) n) cell args w = .error .exhausted u) := by
  constructor
  · intro i hi hg
    have hm := machine_coupled untouchedCoupling_total (Nat.le_refl n)
    exact (callFunction_coupled hm cell args w w' h).others i hi hg nofun
  · intro hg key hb
    rcases callFunction_coupled (watched_below (changes key) n) cell args w with he | hu
    · have ht := callFunction_coupled (watched_untouched key n) cell args w w' (he ▸ h)
      exact absurd (ht.bindings key rfl hg nofun) hb
    · exact hu

/-- a state with the function `{ y = 2 global x }`, made in a scope where `y` is 1 -/
def World.declaring : World :=
  { (default : World) with
    scopes := #[default, ⟨[("y", .int 1)], none⟩]
    functions := #[⟨[], [.assign "y" (.num (.int 2)), .global "x"], 1⟩] }

/-- the state after its call -/
def World.declared : World :=
  { World.declaring with
    scopes := #[⟨[("x", .null)], none⟩, ⟨[("y", .int 1)], none⟩,
      ⟨[("x", .null), ("y", .int 2)], none⟩] }

/-- the scope that the function was made in keeps its variable; the new global variable comes from the
declaration, where the watched call stops -/
theorem call_isolated_declaring :
    callFunction (machine 2) 0 [] World.declaring = .ok .null World.declared ∧
      World.declared.scope 1 = World.declaring.scope 1 ∧
      ∃ u, callFunction (watched (changes (some "x")) 2) 0 [] World.declaring = .error .exhausted u := by
  have hr : callFunction (machine 2) 0 [] World.declaring = .ok .null World.declared := rfl
  have he : EndsIn (callFunction (machine 2) 0 [] World.declaring) World.declared := by
    rw [hr]
    exact .value _ _
  have h := call_isolated he
  exact ⟨hr, h.1 1 (by decide) (by decide), h.2 (by decide) (some "x") nofun⟩

end BraceScript
