import BraceScript.Proofs.Exec.QuietProgram
import BraceScript.Proofs.Exec.Run
import BraceScript.Proofs.Simulation.MatchFiles
import BraceScript.Proofs.Simulation.MatchText

/-!
# Evaluations that simulate each other

Two evaluations simulate each other if, from states that stand for each other, they end alike: with results or
signals that stand for each other, in states that do. The first one may also be stopped.

* `Bond.Outcome`   outcomes that stand for each other
* `Bond.Sim`       evaluations that simulate each other
* `sim_bind`, `sim_get`, `sim_tryCatch`, ...   how such evaluations are put together
* `sim_newList`, `sim_bindName`, ...           the steps that change a state
-/

namespace BraceScript

open Exec

namespace Bond

variable {B : Bond} {α β γ δ : Type} {R : α → β → Prop} {S : γ → δ → Prop} {w w' : World}

/-! ## outcomes -/

variable (B) in
/-- outcomes that stand for each other; the first run may have been stopped -/
inductive Outcome (R : α → β → Prop) : EStateM.Result Signal World α → EStateM.Result Signal World β → Prop
  | ok {a : α} {b : β} {w w' : World} (hr : R a b) (hw : B.Match w w') : Outcome R (.ok a w) (.ok b w')
  | error {s s' : Signal} {w w' : World} (hs : B.Ends s s') (hw : B.Match w w') :
    Outcome R (.error s w) (.error s' w')
  | stop {u : World} (hu : B.stops u) (r : EStateM.Result Signal World β) : Outcome R (.error .exhausted u) r

/-- go on after steps that end alike, from what the first of them came to -/
theorem Outcome.bind_of_run {x : Exec α} {y : Exec β} (hx : B.Outcome R (x w) (y w')) {f : α → Exec γ}
    {g : β → Exec δ}
    (hf : ∀ {a b u u'}, x w = .ok a u → R a b → B.Match u u' → B.Outcome S (f a u) (g b u')) :
    B.Outcome S ((x >>= f) w) ((y >>= g) w') := by
  rw [bind_run, bind_run]
  revert hx hf
  generalize x w = r
  generalize y w' = r'
  intro hx hf
  cases hx with
  | ok hr hw => exact hf rfl hr hw
  | error hs hw => exact .error hs hw
  | stop hu => exact .stop hu _

theorem Outcome.bind {x : Exec α} {y : Exec β} (hx : B.Outcome R (x w) (y w')) {f : α → Exec γ}
    {g : β → Exec δ} (hf : ∀ {a b u u'}, R a b → B.Match u u' → B.Outcome S (f a u) (g b u')) :
    B.Outcome S ((x >>= f) w) ((y >>= g) w') := hx.bind_of_run fun _ => hf

theorem Outcome.imp {R' : α → β → Prop} (hR : ∀ {a b}, R a b → R' a b)
    {r : EStateM.Result Signal World α} {r' : EStateM.Result Signal World β} (h : B.Outcome R r r') :
    B.Outcome R' r r' := by
  cases h with
  | ok hr hw => exact .ok (hR hr) hw
  | error hs hw => exact .error hs hw
  | stop hu => exact .stop hu _

/-! ## simulation -/

variable (B) in
/-- evaluations that end alike from states that stand for each other -/
def Sim (R : α → β → Prop) (x : Exec α) (y : Exec β) : Prop :=
  ∀ (w w' : World), B.Match w w' → B.Outcome R (x w) (y w')

section
variable {x : Exec α} {y : Exec β}

theorem Sim.imp {R' : α → β → Prop} (h : B.Sim R x y) (hR : ∀ {a b}, R a b → R' a b) : B.Sim R' x y :=
  fun w w' hw => (h w w' hw).imp hR

theorem sim_pure {a : α} {b : β} (h : R a b) : B.Sim R (pure a) (pure b) := fun _ _ hw => .ok h hw

theorem sim_throw {s s' : Signal} (h : B.Ends s s') : B.Sim R (throw s) (throw s') :=
  fun _ _ hw => .error h hw

theorem sim_fail {f f' : Fault} (h : B.Fail f f') : B.Sim R (fail f) (fail f') := sim_throw (.fault h)

theorem sim_fault {f : Fault} (h : f.isPlain = true) : B.Sim R (fail f) (fail f) := sim_fail (.plain h)

theorem sim_giveUp : B.Sim R giveUp giveUp := sim_throw .exhausted

/-- what would follow a fault does not matter -/
theorem sim_raise {f : Fault} (h : f.isPlain = true) {g : α → Exec γ} {g' : β → Exec δ} :
    B.Sim S (fail f >>= g) (fail f >>= g') := fun _ _ hw => .error (.fault (.plain h)) hw

theorem sim_bind {f : α → Exec γ} {g : β → Exec δ} (hx : B.Sim R x y)
    (hf : ∀ {a b}, R a b → B.Sim S (f a) (g b)) : B.Sim S (x >>= f) (y >>= g) :=
  fun w w' hw => (hx w w' hw).bind fun hr hu => hf hr _ _ hu

/-- go on after a step with the same result on both sides -/
theorem sim_then {x y : Exec α} {f : α → Exec γ} {g : α → Exec δ} (hx : B.Sim Eq x y)
    (hf : ∀ a, B.Sim S (f a) (g a)) : B.Sim S (x >>= f) (y >>= g) :=
  sim_bind hx fun {a _} h => h ▸ hf a

theorem sim_map {f : α → γ} {g : β → δ} (hx : B.Sim R x y) (hf : ∀ {a b}, R a b → S (f a) (g b)) :
    B.Sim S (f <$> x) (g <$> y) := by
  rw [map_eq_pure_bind, map_eq_pure_bind]
  exact sim_bind hx fun hr => sim_pure (hf hr)

theorem sim_ite {c : Prop} [Decidable c] {x' : Exec α} {y' : Exec β} (hx : B.Sim R x y)
    (hx' : B.Sim R x' y') : B.Sim R (if c then x else x') (if c then y else y') := by
  split
  · exact hx
  · exact hx'

theorem sim_ite_iff {c c' : Prop} [Decidable c] [Decidable c'] (hc : c ↔ c') {x' : Exec α} {y' : Exec β}
    (hx : B.Sim R x y) (hx' : B.Sim R x' y') : B.Sim R (if c then x else x') (if c' then y else y') := by
  simp only [hc]
  exact sim_ite hx hx'

/-- a condition under which both evaluations fail -/
theorem sim_check {c : Prop} [Decidable c] {f : Fault} (h : f.isPlain = true) {g : γ → Exec α}
    {g' : δ → Exec β} (hx : B.Sim R x y) :
    B.Sim R (if c then fail f >>= g else x) (if c then fail f >>= g' else y) := sim_ite (sim_raise h) hx

end

/-- look at the state -/
theorem sim_get {f : World → Exec γ} {g : World → Exec δ}
    (h : ∀ {w w'}, B.Match w w' → B.Sim S (f w) (g w')) : B.Sim S (get >>= f) (get >>= g) :=
  fun _ _ hw => h hw _ _ hw

theorem sim_modify {f g : World → World} (h : ∀ {w w'}, B.Match w w' → B.Match (f w) (g w')) :
    B.Sim Eq (modify f : Exec Unit) (modify g) := fun _ _ hw => .ok rfl (h hw)

theorem sim_modifyGet {f : World → α × World} {g : World → β × World}
    (h : ∀ {w w'}, B.Match w w' → R (f w).1 (g w').1 ∧ B.Match (f w).2 (g w').2) :
    B.Sim R (modifyGet f) (modifyGet g) := fun _ _ hw => .ok (h hw).1 (h hw).2

/-- a handler, which does not handle lack of fuel -/
theorem sim_tryCatch {x : Exec α} {y : Exec β} {f : Signal → Exec α} {g : Signal → Exec β}
    (hx : B.Sim R x y) (hf : ∀ {s s'}, B.Ends s s' → B.Sim R (f s) (g s'))
    (he : f .exhausted = throw .exhausted) : B.Sim R (tryCatch x f) (tryCatch y g) := by
  intro w w' hw
  rw [tryCatch_run, tryCatch_run]
  have h := hx w w' hw
  revert h
  generalize x w = r
  generalize y w' = r'
  intro h
  cases h with
  | ok hr hw => exact .ok hr hw
  | error hs hw => exact hf hs _ _ hw
  | stop hu =>
    dsimp only
    rw [he]
    exact .stop hu _

theorem sim_mapM {xs : List α} {ys : List β} (h : List.Forall₂ R xs ys) {f : α → Exec γ} {g : β → Exec δ}
    (hf : ∀ {x y}, R x y → B.Sim S (f x) (g y)) :
    B.Sim (List.Forall₂ S) (xs.mapM f) (ys.mapM g) := by
  induction h with
  | nil => exact sim_pure .nil
  | cons hx _ ih =>
    rw [List.mapM_cons, List.mapM_cons]
    exact sim_bind (hf hx) fun ha => sim_bind ih fun has => sim_pure (.cons ha has)

theorem sim_foldlM {xs : List α} {ys : List β} (h : List.Forall₂ R xs ys) {f : γ → α → Exec γ}
    {g : δ → β → Exec δ} (hf : ∀ {c d x y}, S c d → R x y → B.Sim S (f c x) (g d y)) {c : γ} {d : δ}
    (hc : S c d) : B.Sim S (xs.foldlM f c) (ys.foldlM g d) := by
  induction h generalizing c d with
  | nil => exact sim_pure hc
  | cons hx _ ih =>
    rw [List.foldlM_cons, List.foldlM_cons]
    exact sim_bind (hf hc hx) fun hd => ih hd

/-! ## computations that may fail -/

variable (B) in
/-- results that stand for each other, or faults that do -/
inductive Excepts (R : α → β → Prop) : Except Fault α → Except Fault β → Prop
  | ok {a : α} {b : β} (h : R a b) : Excepts R (.ok a) (.ok b)
  | error {f f' : Fault} (h : B.Fail f f') : Excepts R (.error f) (.error f')

theorem Fail.known {f : Fault} (h : f.isKnown = true) : B.Fail f f := by
  refine .plain ?_
  unfold Fault.isPlain
  split
  · cases h
  · cases h
  · rfl

theorem Excepts.known {r r' : Except Fault α} (hk : Known r') (h : r = r') : B.Excepts Eq r r' := by
  subst h
  cases r with
  | ok a => exact .ok rfl
  | error f => exact .error (.known (hk f rfl))

theorem sim_ofExcept {r : Except Fault α} {r' : Except Fault β} (h : B.Excepts R r r') :
    B.Sim R (ofExcept r) (ofExcept r') := by
  cases h with
  | ok h => exact sim_pure h
  | error h => exact sim_fail h

theorem sim_query {f : World → Except Fault α} {g : World → Except Fault β}
    (h : ∀ {w w'}, B.Match w w' → B.Excepts R (f w) (g w')) : B.Sim R (query f) (query g) :=
  sim_get fun hw => sim_ofExcept (h hw)

theorem sim_shown {v v' : Value} (hv : B.Val v v') : B.Sim Eq (shown v) (shown v') :=
  sim_query fun {_ w'} hw => .known (w'.known_shown v') (hw.shown hv)

theorem sim_plain {v v' : Value} (hv : B.Val v v') : B.Sim Eq (plain v) (plain v') :=
  sim_query fun {_ w'} hw => .known (w'.known_plain v') (hw.plain hv)

/-! ## cells -/

section
variable {i j : Nat} {v v' : Value}

theorem sim_newList {a a' : Array Value} (h : B.Vals a.toList a'.toList) :
    B.Sim B.Val (newList a) (newList a') :=
  sim_modifyGet fun hw => ⟨.list hw.lists.pairs_size, hw.pushList h⟩

theorem sim_newDict {d d' : Dict} (h : B.Dicts d d') : B.Sim B.Val (newDict d) (newDict d') :=
  sim_modifyGet fun hw => ⟨.dict hw.dicts.pairs_size, hw.pushDict h⟩

theorem sim_newTuple {vs vs' : List Value} (h : B.Vals vs vs') :
    B.Sim B.Val (newTuple vs) (newTuple vs') := by
  unfold newTuple
  rw [isEmpty_congr h]
  split
  · exact fun _ _ hw => .ok (.tuple hw.sound.emptyTuple) hw
  · exact sim_modifyGet fun hw => ⟨.tuple hw.tuples.pairs_size, hw.pushTuple h⟩

theorem sim_newFunction {c c' : Closure} (h : B.Function c c') :
    B.Sim B.functions.Pairs (newFunction c) (newFunction c') :=
  sim_modifyGet fun hw => ⟨hw.functions.pairs_size, hw.pushFunction h⟩

theorem sim_newCallable {c c' : Callable} (h : B.Target c c') :
    B.Sim B.Val (newCallable c) (newCallable c') :=
  sim_modifyGet fun hw => ⟨.callable hw.callables.pairs_size, hw.pushCallable h⟩

theorem sim_newScope {s s' : Scope} (h : B.Vars s s') : B.Sim B.scopes.Pairs (newScope s) (newScope s') :=
  sim_modifyGet fun hw => ⟨hw.scopes.pairs_size, hw.pushScope h⟩

theorem sim_newDouble (x : Double) : B.Sim B.Val (newDouble x) (newDouble x) := by
  unfold newDouble
  exact sim_ite (sim_modifyGet fun hw => ⟨.nan hw.pairs_nans, hw.newNan⟩) (sim_pure (.float x))

theorem sim_setList (hp : B.lists.Pairs i j) {a a' : Array Value} (h : B.Vals a.toList a'.toList) :
    B.Sim Eq (setList i a) (setList j a') := sim_modify fun hw => hw.setList hp h

theorem sim_modifyList (hp : B.lists.Pairs i j) {f g : Array Value → Array Value}
    (h : ∀ {a a' : Array Value}, B.Vals a.toList a'.toList → B.Vals (f a).toList (g a').toList) :
    B.Sim Eq (modifyList i f) (modifyList j g) := sim_modify fun hw => hw.modifyList hp h

theorem sim_modifyDict (hp : B.dicts.Pairs i j) {f g : Dict → Dict}
    (h : ∀ {d d' : Dict}, B.Dicts d d' → B.Dicts (f d) (g d')) :
    B.Sim Eq (modifyDict i f) (modifyDict j g) := sim_modify fun hw => hw.modifyDict hp h

theorem sim_modifyHandle (cell : Nat) (f : Handle → Handle) :
    B.Sim Eq (modifyHandle cell f) (modifyHandle cell f) :=
  sim_modify fun hw => hw.setFiles hw.disk (by rw [hw.handles])

theorem sim_bindName (hp : B.scopes.Pairs i j) {name : String} (hn : ¬ B.pinned name) (hv : B.Val v v') :
    B.Sim Eq (bindName i name v) (bindName j name v') := by
  refine sim_modify fun hw => hw.modifyScope hp (fun hs => hs.insert name hv) fun s' {other} ho => ?_
  rw [Scope.find?_insert, if_neg]
  rintro rfl
  exact hn ho

theorem sim_bindMessage (hp : B.scopes.Pairs i j) {name : Option String} (hn : ∀ x ∈ name, ¬ B.pinned x)
    (hv : B.Val v v') : B.Sim Eq (bindMessage i name v) (bindMessage j name v') := by
  cases name with
  | some name => exact sim_bindName hp (hn name rfl) hv
  | none =>
    refine sim_modify fun hw => hw.modifyScope hp (fun hs => ?_) fun _ _ _ => rfl
    exact ⟨hs.distinct, hs.distinct', hs.find, .some hv⟩

theorem sim_write (s : String) : B.Sim Eq (Exec.write s) (Exec.write s) := sim_modify fun hw => hw.write s

theorem sim_setActive {cs cs' : List Cell} (h : B.Active cs cs') :
    B.Sim Eq (modify fun w => { w with active := cs } : Exec Unit) (modify fun w => { w with active := cs' }) :=
  sim_modify fun hw => hw.setActive h

/-! ## truth and keys -/

theorem sim_truth (hv : B.Val v v') : B.Sim Eq (truth v) (truth v') :=
  sim_get fun hw => sim_pure (hw.truth hv)

theorem sim_checkKey (hv : B.Val v v') : B.Sim Eq (checkKey v) (checkKey v') := by
  refine sim_get fun hw => ?_
  rw [hw.unhashable? hv]
  split
  · exact sim_fault rfl
  · exact sim_pure rfl

theorem sim_findKey (hp : B.dicts.Pairs i j) (hv : B.Val v v') :
    B.Sim (Option.Rel B.Val) (findKey i v) (findKey j v') :=
  sim_then (sim_checkKey hv) fun _ => sim_get fun hw => sim_pure ((hw.dict hp).find? hv)

theorem sim_putKey (hp : B.dicts.Pairs i j) (hv : B.Val v v') {u u' : Value} (hu : B.Val u u') :
    B.Sim Eq (putKey i v u) (putKey j v' u') :=
  sim_then (sim_checkKey hv) fun _ => sim_modifyDict hp fun hd => hd.insert hv hu

end

end Bond

end BraceScript
