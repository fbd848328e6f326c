import BraceScript.Proofs.Exec.Occasion

/-!
# Trees without a rule

A program can come to a tree that no rule executes, and then ends with a fault that shows the tree. There
are five ways to come to one: a minus in front of an expression, a membership test without a left side, a
comprehension with several conditions, a call by a name that is bound to something that cannot be
called, and a value in the place of a tree, which the default of a field can be. Nothing else ends a run
with this fault.

* `World.lacksRule`, `withoutRule`   the trees without a rule, and the occasion to come to one
* `ruledCoupling`    the rules keep evaluations from ending with the fault
* `stopped_ruled`    a machine that stops at these trees never ends with the fault
* `unknown_tree_causes`   what ends a run with the fault
-/

namespace BraceScript

open Exec

def World.lacksRule (scope : Nat) (w : World) : Node → Bool
  | .neg _ => true
  | .danglingOutside _ => true
  | .quoted _ => true
  | .listComp _ _ _ _ conditions => 1 < conditions.length
  | .call (.var name) _ _ => ((w.scope scope).find? name).any fun v => !v.isCallable
  | _ => false

def withoutRule : Occasion := ⟨World.lacksRule, fun _ _ _ _ => false⟩

/-! ## evaluations that have all their rules -/

/-- the outcome is not the fault for a tree without a rule -/
def Ruled {α : Type} (r : EStateM.Result Signal World α) : Prop :=
  ∀ t u, r ≠ .error (.fault (.unknownNode t)) u

section
variable {α β : Type}

theorem ruled_ok (a : α) (u : World) : Ruled (.ok a u : EStateM.Result Signal World α) := by
  intro t v h
  cases h

theorem ruled_error {s : Signal} (h : ∀ t, s ≠ .fault (.unknownNode t)) (u : World) :
    Ruled (.error s u : EStateM.Result Signal World α) := fun t _ e =>
  h t (EStateM.Result.error.inj e).1

theorem ruled_bind {x : Exec α} {f : α → Exec β} {w : World} (hx : Ruled (x w))
    (hf : ∀ a u, Ruled (f a u)) : Ruled ((x >>= f) w) := by
  rw [bind_run]
  cases h : x w with
  | ok a u => exact hf a u
  | error s u => exact ruled_error (fun t e => hx t u (by rw [h, e])) u

theorem ruled_tryCatch {x : Exec α} {f : Signal → Exec α} {w : World} (hx : Ruled (x w))
    (hf : ∀ s, (∀ t, s ≠ .fault (.unknownNode t)) → ∀ u, Ruled (f s u)) :
    Ruled (tryCatch x f w) := by
  rw [tryCatch_run]
  cases h : x w with
  | ok a u => exact ruled_ok a u
  | error s u => exact hf s (fun t e => hx t u (by rw [h, e])) u

end

/-- the rules keep evaluations from ending with the fault -/
def ruledCoupling : Coupling where
  law := .free
  Ends _ s := ∀ t, s ≠ .fault (.unknownNode t)
  Grows := True
  Rel _ _ _ x _ := ∀ w, Ruled (x w)
  lawful h w t u e := ((h w).2 _ u e).known t rfl
  raise h w := ruled_error h w
  read h w := h w w.obeys_free w
  exhausted _ _ h w := by
    obtain ⟨u, hu⟩ := h w
    rw [hu]
    exact ruled_error (by simp) u
  bind h hf w := ruled_bind (h w) hf
  tryCatch h hf _ w := ruled_tryCatch (h w) hf
  weaken h := h
  enter h := h
  breakLoop _ := nofun
  continueLoop _ := nofun
  pass h _ _ := h
  bindName _ _ _ _ _ := ruled_ok _ _
  bindMessage _ _ name _ _ := by cases name <;> exact ruled_ok _ _
  fresh _ h w := h w.scopes.size _

theorem ruledCoupling_unscoped : ruledCoupling.Unscoped := fun h => h

/-! ## machines that stop at trees without a rule -/

section
variable {u : World} {n : Nat}
  (h : (stopped withoutRule u n).Coupled ruledCoupling (stopped withoutRule u n))
include h

omit h in
/-- a name is looked up, whether the machine stops at other trees or not -/
theorem stopped_var (s : Nat) (name : String) (w : World) :
    (stopped withoutRule u n).exec (.var name) s w = lookup s name w ∨
      ∃ v, (stopped withoutRule u n).exec (.var name) s w = .error .exhausted v := by
  cases n with
  | zero => exact Or.inr ⟨_, rfl⟩
  | succ n => exact Or.inl rfl

theorem ruled_callByName {s : Nat} {name : String} {args : List Node}
    {keywords : List (String × Node)} {w : World}
    (hw : w.lacksRule s (.call (.var name) args keywords) = false) :
    Ruled (evalCall (stopped withoutRule u n) s (.var name) args keywords w) := by
  rw [evalCall, bind_run, evalCallee_var, bind_run]
  rcases stopped_var s name w with he | ⟨v, he⟩
  · rw [he, lookup, bind_run, get_run]
    dsimp only
    cases hf : (w.scope s).find? name with
    | none => exact ruled_error (by simp) w
    | some v =>
      have hv : v.isCallable = true := by simpa [World.lacksRule, hf] using hw
      refine applyCall_coupled (l := false) h s trivial (fun f e hc => ?_) w
      cases e
      rw [hv] at hc
      cases hc
  · rw [he]
    exact ruled_error (by simp) v

/-- a tree that has a rule -/
theorem ruled_execNode {s : Nat} {node : Node} {w : World} (hw : w.lacksRule s node = false) :
    Ruled (execNode (stopped withoutRule u n) s node w) := by
  have hp : node.isDeclaration = false → (∀ path, node ≠ .includeFile path) → node.isOdd = false →
      Ruled (execPlain (stopped withoutRule u n) s node w) := fun hd hi ho =>
    execPlain_coupled (l := false) h s trivial hd (fun path e => absurd e (hi path))
      (fun e => by rw [ho] at e; cases e) w
  cases node with
  | neg e => cases hw
  | danglingOutside e => cases hw
  | quoted v => cases hw
  | listComp body var iterable step conditions => exact hp rfl nofun hw
  | call callee args keywords =>
    cases callee with
    | var name => exact ruled_callByName h hw
    | _ => exact hp rfl nofun rfl
  | global name => exact ruledCoupling_unscoped.evalGlobal_coupled (l := false) s name w
  | classDef c => exact ruledCoupling_unscoped.declareClass_coupled (l := false) none trivial w
  | includeFile path => exact includeInPlace_coupled (l := false) h (fun _ => trivial) path s w
  | _ => exact hp rfl nofun rfl

end

/-- **A machine that stops at trees without a rule never ends with the fault for one.** -/
theorem stopped_ruled (u : World) (n : Nat) :
    (stopped withoutRule u n).Coupled ruledCoupling (stopped withoutRule u n) := by
  induction n with
  | zero =>
    exact ⟨fun _ _ => ruledCoupling.exhausted _ trivial fun _ => ⟨_, rfl⟩,
      fun _ _ => ruledCoupling.exhausted _ trivial fun _ => ⟨_, rfl⟩, Or.inl rfl⟩
  | succ n ih =>
    refine ⟨fun {node l} _ s w => ?_, fun f args => ?_, Or.inl rfl⟩
    · show Ruled (if w.lacksRule s node then _ else _)
      split
      · exact ruled_error (by simp) u
      · rename_i hw
        exact ruled_execNode ih (Bool.eq_false_iff.mpr hw)
    · exact callValue_coupled ih (ruledCoupling_unscoped.fieldDefault_coupled ih) f args
        fun _ => includeModule_coupled (C := ruledCoupling) (fun _ => trivial) args

/-! ## runs -/

/-- among the faults of this family, only the one for a tree without a rule has a message that begins so -/
theorem eq_unknownNode {f : Fault} {w : World} {text : String} (hf : f.family = .runtime)
    (hm : w.message f = .ok text) (hs : "Unknown node:".toList <+: text.toList) :
    ∃ t, f = .unknownNode t := by
  obtain ⟨rest, hr⟩ := hs
  have hu : text.toList.head? = some 'U' := by
    rw [← hr]
    rfl
  cases f with
  | parse e => cases e <;> cases hf
  | path cause p => cases cause <;> cases hf
  | unknownNode t => exact ⟨t, rfl⟩
  | nullAssign attr shown =>
    cases hm
    simp [Fault.message?] at hu
  | cannotIndex object index =>
    cases hm
    simp [Fault.message?] at hu
  | notAFunction shown =>
    cases hm
    simp [Fault.message?] at hu
  | dictResized =>
    cases hm
    simp [Fault.message?] at hu
  | _ => cases hf

/-- **Which trees have no rule.** From every state, a run that never comes to one of the trees of
`World.lacksRule` does not end with the run time fault whose message begins with `Unknown node:`. A minus
in front of an expression and a membership test without a left side do end with it, wherever they are
executed. -/
theorem unknown_tree_causes (n : Nat) (w : World) :
    (∀ source, Never withoutRule n source w → ∀ f w' text,
      runSource n source w = .error (.fault f) w' → f.family = .runtime → w'.message f = .ok text →
        ¬ "Unknown node:".toList <+: text.toList) ∧
      ∀ (scope : Nat) (node e : Node), node = .neg e ∨ node = .danglingOutside e →
        (machine (n + 1)).exec node scope w = .error (.fault (.unknownNode (w.nodeText node))) w ∧
          w.message (.unknownNode (w.nodeText node)) = .ok ("Unknown node: " ++ w.nodeText node) := by
  constructor
  · intro source hn f w' text hr hf hm hs
    obtain ⟨t, rfl⟩ := eq_unknownNode hf hm hs
    have hu : ∀ w, Ruled (runOn (stopped withoutRule default n) source w) :=
      runOn_coupled ruledCoupling_unscoped (stopped_ruled default n) fun _ _ _ _ => trivial
    refine hu w t w' ?_
    rw [hn default, hr]
  · rintro scope node e (rfl | rfl) <;> exact ⟨rfl, rfl⟩

/-- a program that calls a text: `def f() { "a" } f()()` -/
def callText : String := "def f() \x7b \"a\" \x7d f()()"

/-- the state that it leaves -/
def World.calledText : World :=
  let globals := (World.initialScope 0 0).insert "f" (.function 0)
  { World.start [] [] default "main" with
    functions := #[⟨[], [.str "a"], 0⟩]
    scopes := #[globals, globals] }

/-- the call of a text that is not named ends a run with another run time fault -/
theorem unknown_tree_causes_text :
    runSource 4 callText (World.start [] [] default "main") =
        .error (.fault (.notAFunction "a")) World.calledText ∧
      ¬ "Unknown node:".toList <+: "Attempted to call non-callable: a".toList := by
  have ht : tokenize callText = [⟨.keyword, "def"⟩, ⟨.ident, "f"⟩, ⟨.symbol, "("⟩, ⟨.symbol, ")"⟩,
      ⟨.symbol, "\x7b"⟩, ⟨.string, "a"⟩, ⟨.symbol, "\x7d"⟩, ⟨.ident, "f"⟩, ⟨.symbol, "("⟩,
      ⟨.symbol, ")"⟩, ⟨.symbol, "("⟩, ⟨.symbol, ")"⟩] := by decide +kernel
  have hp : parseSource callText = .ok [.define ⟨"f", [], [.str "a"]⟩,
      .call (.call (.var "f") [] []) [] []] := by
    rw [parseSource, ht]
    rfl
  have hr : runSource 4 callText (World.start [] [] default "main") =
      .error (.fault (.notAFunction "a")) World.calledText := by
    rw [← runOn_machine, runOn_ok hp]
    rfl
  have hn : Never withoutRule 4 callText (World.start [] [] default "main") := by
    intro u
    rw [hr, runOn_ok hp]
    rfl
  exact ⟨hr, (unknown_tree_causes 4 _).1 callText hn _ _ _ hr rfl rfl⟩

end BraceScript
