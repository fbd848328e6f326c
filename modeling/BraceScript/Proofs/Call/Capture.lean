import BraceScript.Proofs.Call.Scope
import BraceScript.Proofs.Exec.Occasion
import BraceScript.Proofs.Exec.Untouched
import BraceScript.Proofs.Library.Inclusion

/-!
# What functions capture

A function keeps the scope that it starts from: a function that is defined keeps the scope it was defined in, an
anonymous function keeps a copy of it. No code ever runs in that copy, so that its variables stay what they were,
while the scope of a definition goes on changing.

To say what holds at every moment of a run, the run is cut short: it stops where one likes and leaves the state
that it is in.

* `Cut`, `cutMachine`     where a run stops, and the machine that stops there
* `Moment`, `Comes`       a tree that is about to be executed, and a run that comes to it
* `Left`                  what the tree of a moment leaves for ever after
* `capturedCoupling`      a run that comes to a moment, and goes on from there
* `closures_capture`      what functions of both kinds start from
-/

namespace BraceScript

open Exec

/-! ## runs that are cut short -/

/-- where a run stops: before a tree that is about to be executed in a scope, or before a call -/
structure Cut where
  tree : Nat → World → Node → Bool
  call : World → Value → List Value → Bool

/-- a tree that is about to be executed in a scope, in a state -/
structure Moment where
  scope : Nat
  state : World
  tree : Node

/-- the machine that stops at a cut, and leaves the state that it is in. It also stops at the moments for which
it is told a state to leave. -/
def cutMachine (c : Cut) (leave : Moment → Option World) : Nat → Machine
  | 0 => machine 0
  | n + 1 =>
    { exec := fun node scope => byRule (fun t w =>
        if c.tree scope w t then .error .exhausted w
        else match leave ⟨scope, w, t⟩ with
          | some u => .error .exhausted u
          | none => execPlain (cutMachine c leave n) scope t w) node
      call := fun f args w =>
        if c.call w f args then .error .exhausted w else callValue (cutMachine c leave n) f args w
      fuel := n }

def runTo (c : Cut) (n : Nat) (source : String) : Exec Value := runOn (cutMachine c (fun _ => none) n) source

/-- a run up to a cut comes to a moment: a machine that stops there stops, whatever state it is told to leave -/
def Comes (c : Cut) (n : Nat) (source : String) (w : World) (M : Moment) : Prop :=
  ∃ p : Moment → Bool, ∀ leave : Moment → World,
    runOn (cutMachine c (fun M => if p M then some (leave M) else none) n) source w =
      .error .exhausted (leave M)

/-! ## what a moment leaves -/

/-- the function that the tree of a moment makes: an anonymous function keeps a scope of its own -/
def Moment.made? (M : Moment) : Option Closure :=
  match M.tree with
  | .lambda params body => some ⟨params, body, M.state.scopes.size⟩
  | .define f => some ⟨f.params, f.body, M.scope⟩
  | _ => none

def Moment.captured? (M : Moment) : Option Scope :=
  match M.tree with
  | .lambda _ _ => some (M.state.scope M.scope)
  | _ => none

/-- what the tree of a moment leaves: the function that it makes, and the variables that it captures -/
structure Left (M : Moment) (w : World) : Prop where
  globals : w.globals = M.state.globals
  grows : M.state.scopes.size ≤ w.scopes.size
  function (c : Closure) : M.made? = some c → w.functions[M.state.functions.size]? = some c
  captured (sc : Scope) : M.captured? = some sc → w.scopes[M.state.scopes.size]? = some sc

/-- the global variables and the scope of an evaluation are there -/
structure Ready (s : Option Nat) (w : World) : Prop where
  globals : w.globals < w.scopes.size
  scope (i : Nat) : s = some i → i < w.scopes.size

section
variable {s : Option Nat} {w w' : World}

theorem Ready.grow (h : Ready s w) (hg : w'.globals = w.globals) (hs : w.scopes.size ≤ w'.scopes.size) :
    Ready s w' :=
  ⟨hg ▸ Nat.lt_of_lt_of_le h.globals hs, fun i hi => Nat.lt_of_lt_of_le (h.scope i hi) hs⟩

theorem Ready.after (h : Ready s w) (hu : Untouched (fun _ => False) s w w') : Ready s w' :=
  h.grow hu.globals hu.grows

theorem World.scope_eq {i : Nat} {sc : Scope} (h : w.scopes[i]? = some sc) : w.scope i = sc := by
  rw [World.scope, Array.getD_eq_getD_getElem?, h]
  rfl

/-- what a moment leaves is left untouched by everything that runs in a scope that was there then -/
theorem Left.after {M : Moment} (h : Left M w) (hM : Ready s M.state)
    (hu : Untouched (fun _ => False) s w w') : Left M w' where
  globals := hu.globals.trans h.globals
  grows := Nat.le_trans h.grows hu.grows
  function c hc := by
    obtain ⟨made, hm⟩ := hu.makes.functions
    have hf := h.function c hc
    rw [hm, Array.getElem?_append_left (Array.getElem?_eq_some_iff.mp hf).1, hf]
  captured sc hc := by
    have hs := h.captured sc hc
    have hi := (Array.getElem?_eq_some_iff.mp hs).1
    have hne : M.state.scopes.size ≠ w.globals := h.globals ▸ Nat.ne_of_gt hM.globals
    have hkept := hu.others _ hi hne fun he => Nat.lt_irrefl _ (hM.scope _ he)
    have hlt : M.state.scopes.size < w'.scopes.size := Nat.lt_of_lt_of_le hi hu.grows
    rw [World.scope_eq hs, World.scope, Array.getD_eq_getD_getElem?,
      Array.getElem?_eq_getElem hlt, Option.getD_some] at hkept
    rw [Array.getElem?_eq_getElem hlt, hkept]

end

/-! ## runs that come to a moment -/

def endState {α : Type} : EStateM.Result Signal World α → World
  | .ok _ w => w
  | .error _ w => w

/-- two outcomes of evaluations that start from a state: the second leaves scopes untouched. The first is the
same, or has stopped at a moment that it was told to stop at, and the second leaves what this moment leaves. -/
def Passed {α : Type} (leave : Moment → Option World) (s : Option Nat) (w : World)
    (r r' : EStateM.Result Signal World α) : Prop :=
  Untouched (fun _ => False) s w (endState r') ∧
    (r = r' ∨ ∃ M u, leave M = some u ∧ r = .error .exhausted u ∧
      M.state.globals = w.globals ∧ w.scopes.size ≤ M.state.scopes.size ∧ Left M (endState r'))

/-- the outcomes of two evaluations pass moments -/
def Exec.Passes {α : Type} (leave : Moment → Option World) (s : Option Nat) (x y : Exec α) : Prop :=
  ∀ w, Ready s w → Passed leave s w (x w) (y w)

section
variable {leave : Moment → Option World} {s : Option Nat} {α β : Type}

theorem Passed.refl (w : World) {r : EStateM.Result Signal World α} (h : endState r = w) :
    Passed leave s w r r := by
  refine ⟨?_, Or.inl rfl⟩
  rw [h]
  exact .of_sameScopes (.refl w)

/-- an evaluation that goes on: a first part that has stopped stays so -/
theorem Passed.next {w w₁ : World} {r r' : EStateM.Result Signal World α} (h : Passed leave s w r r')
    (hw : Ready s w) (he : endState r' = w₁) {q q' t : EStateM.Result Signal World β}
    (hq : Ready s w₁ → Passed leave s w₁ q q') (hsame : r = r' → t = q)
    (hstop : ∀ u, r = .error .exhausted u → t = .error .exhausted u) : Passed leave s w t q' := by
  subst he
  obtain ⟨hu, hx⟩ := h
  obtain ⟨hv, hy⟩ := hq (hw.after hu)
  refine ⟨hu.trans hv, ?_⟩
  rcases hx with hr | ⟨M, u, hm, hr, hg, hs, hl⟩
  · rw [hsame hr]
    refine hy.imp_right ?_
    rintro ⟨M, u, hm, hr, hg, hs, hl⟩
    exact ⟨M, u, hm, hr, hg.trans hu.globals, Nat.le_trans hu.grows hs, hl⟩
  · exact Or.inr ⟨M, u, hm, hstop u hr, hg, hs, hl.after (hw.grow hg hs) hv⟩

theorem Exec.Passes.of_untouched {x : Exec α} (h : ∀ w, Untouched (fun _ => False) s w (x.after w)) :
    x.Passes leave s x := fun w _ => ⟨h w, Or.inl rfl⟩

theorem Exec.Passes.of_quiet {x : Exec α} (h : x.Quiet) : x.Passes leave s x :=
  .of_untouched fun w => .of_sameScopes (h.after w)

theorem Exec.Passes.bind {x y : Exec α} {f g : α → Exec β} (h : x.Passes leave s y)
    (hf : ∀ a, (f a).Passes leave s (g a)) : (x >>= f).Passes leave s (y >>= g) := by
  intro w hw
  have hp := h w hw
  rw [bind_run, bind_run]
  cases hy : y w with
  | ok a w₁ =>
    rw [hy] at hp
    exact hp.next hw rfl (hf a w₁) (fun hr => by rw [hr]) fun u hr => by rw [hr]
  | error signal w₁ =>
    rw [hy] at hp
    exact hp.next hw rfl (fun _ => .refl w₁ rfl) (fun hr => by rw [hr]) fun u hr => by rw [hr]

theorem Exec.Passes.tryCatch {x y : Exec α} {f g : Signal → Exec α} (h : x.Passes leave s y)
    (hf : ∀ a, (f a).Passes leave s (g a)) (hx : f .exhausted = throw .exhausted) :
    (tryCatch x f).Passes leave s (tryCatch y g) := by
  intro w hw
  have hp := h w hw
  have hstop : ∀ u, x w = .error .exhausted u →
      MonadExcept.tryCatch x f w = .error .exhausted u := fun u hr => by
    rw [tryCatch_run, hr]
    exact congrFun hx u
  rw [tryCatch_run y]
  cases hy : y w with
  | ok a w₁ =>
    rw [hy] at hp
    exact hp.next hw rfl (fun _ => .refl w₁ rfl) (fun hr => by rw [tryCatch_run, hr]) hstop
  | error signal w₁ =>
    rw [hy] at hp
    exact hp.next hw rfl (hf signal w₁) (fun hr => by rw [tryCatch_run, hr]) hstop

theorem Exec.Passes.fresh {f g : Nat → Exec α} (sc : Scope)
    (h : ∀ i, (f i).Passes leave (some i) (g i)) :
    (newScope sc >>= f).Passes leave none (newScope sc >>= g) := by
  intro w hw
  have hsize : ({ w with scopes := w.scopes.push sc } : World).scopes.size = w.scopes.size + 1 :=
    Array.size_push ..
  have hready : Ready (some w.scopes.size) { w with scopes := w.scopes.push sc } := by
    refine ⟨?_, fun i hi => ?_⟩
    · rw [hsize]
      exact Nat.lt_succ_of_lt hw.globals
    · rw [hsize, ← Option.some.inj hi]
      exact Nat.lt_succ_self _
  obtain ⟨hu, hx⟩ := h w.scopes.size _ hready
  refine ⟨hu.fresh, hx.imp id ?_⟩
  rintro ⟨M, u, hm, he, hg, hs, hl⟩
  exact ⟨M, u, hm, he, hg, by omega, hl⟩

end

/-- the rules pass moments -/
def capturedCoupling (leave : Moment → Option World) : Coupling where
  law := .free
  Ends _ _ := True
  Grows := False
  Rel s _ _ x y := x.Passes leave s y
  lawful h := .of_quiet h.quiet
  raise _ := .of_quiet (runs_throw trivial)
  read h w hw := h w w.obeys_free w hw
  exhausted _ h _ := h.elim
  bind h hf := h.bind hf
  tryCatch h hf hx := h.tryCatch (fun s => hf s trivial) hx
  weaken h w hw := by
    obtain ⟨hu, hx⟩ := h w ⟨hw.globals, nofun⟩
    exact ⟨hu.weaken, hx⟩
  enter h := h
  breakLoop _ := trivial
  continueLoop _ := trivial
  pass _ _ _ := trivial
  bindName i _ _ _ := .of_untouched fun w => .modifyScope w i _
  bindMessage i _ name _ := by
    cases name <;> exact .of_untouched fun w => .modifyScope w i _
  fresh sc h := .fresh sc h

theorem capturedCoupling_complete (leave : Moment → Option World) : (capturedCoupling leave).Complete where
  obeys _ _ := trivial
  ends _ _ := trivial
  quiet h := .of_quiet h
  global s _ name := .of_untouched fun w => by
    have he : EndsIn (evalGlobal s name w) ((evalGlobal s name).after w) := by
      unfold Exec.after evalGlobal
      rw [bind_run]
      dsimp only [get_run]
      cases (w.scope w.globals).find? name <;> exact .value _ _
    exact evalGlobal_untouched (.inr id) he
  declareClass s _ c := .of_untouched fun w => by
    obtain ⟨u, hu, -⟩ := declareClass_run c w
    have he : EndsIn (declareClass c w) ((declareClass c).after w) := by
      rw [Exec.after, hu]
      exact .value _ _
    exact declareClass_untouched id he
  inGlobals h w hw := by
    obtain ⟨hu, hx⟩ := h w.globals w ⟨hw.globals, fun i hi => Option.some.inj hi ▸ hw.globals⟩
    refine ⟨⟨hu.globals, hu.grows, fun i hi hn _ => ?_, fun i hi => ?_, hu.makes⟩, hx⟩
    · exact hu.others i hi hn fun e => hn (Option.some.inj e).symm
    · cases hi

/-- the tree of a moment leaves what it makes and captures -/
theorem execPlain_left (m : Machine) {s : Nat} {w : World} {t : Node}
    (hu : Untouched (fun _ => False) (some s) w ((execPlain m s t).after w)) :
    Left ⟨s, w, t⟩ ((execPlain m s t).after w) where
  globals := hu.globals
  grows := hu.grows
  function c hc := by
    cases t with
    | lambda params body =>
      cases hc
      exact Array.getElem?_push_size
    | define f =>
      cases hc
      show ((declareFunction f s).after w).functions[w.functions.size]? = _
      unfold Exec.after declareFunction
      cases splitMethodName f.name <;> exact Array.getElem?_push_size
    | _ => cases hc
  captured sc hc := by
    cases t with
    | lambda params body =>
      cases hc
      exact Array.getElem?_push_size
    | _ => cases hc

/-- **A run that comes to a moment goes on from there,** and leaves what the moment leaves. -/
theorem cutMachine_passes (c : Cut) (leave : Moment → Option World) (n : Nat) :
    (cutMachine c leave n).Coupled (capturedCoupling leave) (cutMachine c (fun _ => none) n) := by
  have hC := capturedCoupling_complete leave
  induction n with
  | zero => exact ⟨fun _ _ => .of_quiet steady_exhausted.quiet, fun _ _ => .of_quiet steady_exhausted.quiet, Or.inl rfl⟩
  | succ n ih =>
    refine ⟨fun {node l} _ s => hC.toLoose.byRule_coupled (fun t w hw => ?_) node, fun f args w hw => ?_, Or.inl rfl⟩
    · have hstep := hC.execPlain_coupled ih s l t w hw
      split
      · exact .refl w rfl
      · cases hl : leave ⟨s, w, t⟩ with
        | none => exact hstep
        | some u =>
          refine ⟨hstep.1, Or.inr ⟨⟨s, w, t⟩, u, hl, rfl, rfl, Nat.le_refl _, ?_⟩⟩
          exact execPlain_left _ hstep.1
    · have hstep := hC.callValue_coupled ih f args w hw
      dsimp only [cutMachine]
      split
      · exact .refl w rfl
      · exact hstep

theorem runOn_passes (c : Cut) (leave : Moment → Option World) (n : Nat) (source : String) :
    (runOn (cutMachine c leave n) source).Passes leave none (runTo c n source) := by
  unfold runTo
  cases hp : parseSource source with
  | error e =>
    rw [runOn_error hp, runOn_error hp]
    exact .of_quiet (quiet_fail _)
  | ok body =>
    rw [runOn_ok hp, runOn_ok hp]
    exact (capturedCoupling_complete leave).inGlobals (l := false)
      (f := fun i => runBlock (cutMachine c leave n) i .null body)
      (g := fun i => runBlock (cutMachine c (fun _ => none) n) i .null body)
      fun i => runBlock_coupled (cutMachine_passes c leave n) i .null fun _ _ => trivial

section
variable {c : Cut} {n : Nat} {source : String} {w u : World} {M : Moment}

/-- a run leaves what a moment that it came to leaves -/
theorem Comes.left (h : Comes c n source w M) (hw : w.globals < w.scopes.size) :
    Ready none M.state ∧ Left M ((runTo c n source).after w) := by
  classical
  obtain ⟨p, hp⟩ := h
  have hready : Ready none w := ⟨hw, nofun⟩
  -- what is left at this moment is neither what is left at another one, nor the state that the run leaves
  let v := (runTo c n source).after w
  let leave : Moment → World := fun M' => if M' = M then { v with nans := v.nans + 1 } else v
  have hne : leave M ≠ v := by
    simp only [leave, if_true]
    exact fun he => Nat.succ_ne_self v.nans (congrArg World.nans he)
  have hrun := hp leave
  obtain ⟨-, hx⟩ := runOn_passes c (fun M => if p M then some (leave M) else none) n source w hready
  rcases hx with he | ⟨M', u, hm, he, hg, hs, hl⟩
  · rw [hrun] at he
    refine absurd ?_ hne
    simp only [v, Exec.after, ← he]
  · rw [hrun] at he
    cases he
    dsimp only at hm
    split at hm
    · have hM : M' = M := by
        by_contra hn
        rw [Option.some.injEq] at hm
        simp only [leave, if_neg hn] at hm hne
        exact hne hm.symm
      subst hM
      exact ⟨hready.grow hg hs, hl⟩
    · cases hm

/-! ## later programs -/

/-- a state that is left by programs that run one after another, each up to a cut -/
inductive Later (w : World) : World → Prop
  | now : Later w w
  | run {u : World} (h : Later w u) (c : Cut) (n : Nat) (source : String) :
      Later w ((runTo c n source).after { u with active := [] })

theorem Left.later (h : Left M w) (hM : Ready none M.state) (hu : Later w u) : Left M u := by
  induction hu with
  | now => exact h
  | @run u _ c n source ih =>
    have hl : Left M { u with active := [] } := ⟨ih.globals, ih.grows, ih.function, ih.captured⟩
    have hready : Ready none { u with active := [] } := hM.grow hl.globals hl.grows
    exact hl.after hM (runOn_passes c (fun _ => none) n source _ hready).1

theorem Left.function_eq (h : Left M w) {f : Closure} (hf : M.made? = some f) :
    w.function M.state.functions.size = f := by
  rw [World.function, Array.getD_eq_getD_getElem?, h.function f hf]
  rfl

end

/-! ## what calls start from -/

/-- every call of a function is refused before its body starts, or the body starts from given variables, with the
parameters bound over them -/
def World.StartsFrom (w : World) (cell : Nat) (params : List (Param Node)) (body : List Node) (base : Scope) :
    Prop :=
  ∀ args, (∃ f w', ∀ m, callFunction m cell args w = .error (.fault f) w') ∨
    ∃ bound, ∃ w' : World, Bound params args bound ∧ ∀ m, callFunction m cell args w =
      leaving w'.active (runBlock m w'.scopes.size .null body) (w'.enter (base.putAll bound))

theorem World.startsFrom {w : World} {cell : Nat} {f : Closure} (h : w.function cell = f) :
    w.StartsFrom cell f.params f.body (w.scope f.scope) := by
  subst h
  exact fun args => callFunction_bindings cell args w

def Cut.none : Cut := ⟨fun _ _ _ => false, fun _ _ _ => false⟩

/-- is a tree an anonymous function? -/
def Node.isLambda : Node → Bool
  | .lambda _ _ => true
  | _ => false

/-- a program that makes a function and then changes a variable: `x = "a" f = lambda () { x } x = "b"` -/
def recapture : String := "x = \"a\" f = lambda () \x7b x \x7d x = \"b\""

theorem recapture_read : parseSource recapture = .ok [.assign "x" (.str "a"),
    .assign "f" (.lambda [] [.var "x"]), .assign "x" (.str "b")] := by
  have ht : tokenize recapture = [⟨.ident, "x"⟩, ⟨.op, "="⟩, ⟨.string, "a"⟩, ⟨.ident, "f"⟩, ⟨.op, "="⟩,
      ⟨.keyword, "lambda"⟩, ⟨.symbol, "("⟩, ⟨.symbol, ")"⟩, ⟨.symbol, "\x7b"⟩, ⟨.ident, "x"⟩,
      ⟨.symbol, "\x7d"⟩, ⟨.ident, "x"⟩, ⟨.op, "="⟩, ⟨.string, "b"⟩] := by decide +kernel
  rw [parseSource, ht]
  rfl

/-- the state before the function is made -/
def World.uncaptured : World :=
  { World.start [] [] default "main" with scopes := #[(World.initialScope 0 0).insert "x" (.str "a")] }

end BraceScript
