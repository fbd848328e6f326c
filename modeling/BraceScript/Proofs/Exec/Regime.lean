import BraceScript.Proofs.Exec.Occasion
import BraceScript.Proofs.Parse.Regular

/-!
# Programs of one kind

A regime accepts the programs of one kind: their trees obey a law, and the signals that end evaluations
stay in their places. A program keeps this if all files that it comes to include are accepted as well. The
proof runs it on a machine that stops at the first file that is not, next to a machine that would stop at
what is not kept.

* `Regime`                  which programs are accepted, and what they keep
* `foreignInclude`          a run comes to include a file that is not accepted
* `Regime.Kept`             the outcome of an evaluation is as the regime has it
* `Regime.stopped_coupled`  until it stops at a file, an evaluation keeps the regime
* `Regime.runSource_kept`   an accepted program keeps the regime
-/

namespace BraceScript

open Exec

/-- which programs are accepted, and what they keep -/
structure Regime where
  law : Law
  /-- the signals that may end an evaluation outside of loops, and in one -/
  Ends : Bool → Signal → Prop
  accepts : List Node → Bool
  accepted {source : String} {body : List Node} : parseSource source = .ok body → accepts body = true →
    ∀ t ∈ blockSteps body, t.Obeys law false
  unquoted {l : Bool} {x : Value} : ¬ (Node.quoted x).Obeys law l
  breakLoop {l : Bool} : Node.breakLoop.Obeys law l → Ends l .breakLoop
  continueLoop {l : Bool} : Node.continueLoop.Obeys law l → Ends l .continueLoop
  /-- the other signals are free -/
  other {l : Bool} {s : Signal} : s ≠ .breakLoop → s ≠ .continueLoop → Ends l s
  enter {l : Bool} {s : Signal} : Ends false s → Ends l s

/-- a run comes to include a file that is not accepted, as a statement or by a call -/
def foreignInclude (accepts : List Node → Bool) : Occasion where
  tree
    | _, w, .includeFile name =>
      match includedProgram name w with
      | .ok body _ => !accepts body
      | .error _ _ => false
    | _, _, _ => false
  call
    | w, .builtin .load, args, _ =>
      match moduleProgram args w with
      | .ok body _ => !accepts body
      | .error _ _ => false
    | _, _, _, _ => false

/-! ## included files are read from texts -/

theorem parseProgram_ok {source : String} {body : List Node} {w u : World}
    (h : parseProgram source w = .ok body u) : parseSource source = .ok body := by
  unfold parseProgram at h
  cases hp : parseSource source with
  | ok b =>
    rw [hp] at h
    cases h
    rfl
  | error e =>
    rw [hp] at h
    cases h

theorem includedProgram_ok {name : String} {body : List Node} {w u : World}
    (h : includedProgram name w = .ok body u) : ∃ source, parseSource source = .ok body := by
  obtain ⟨dir, u, _, h⟩ := bind_ok h
  obtain ⟨_, u, _, h⟩ := bind_ok h
  obtain ⟨source, u, _, h⟩ := bind_ok h
  exact ⟨source, parseProgram_ok h⟩

theorem moduleProgram_ok {args : List Value} {body : List Node} {w u : World}
    (h : moduleProgram args w = .ok body u) : ∃ source, parseSource source = .ok body := by
  unfold moduleProgram at h
  split at h
  · cases h
  · obtain ⟨path, u, _, h⟩ := bind_ok h
    obtain ⟨source, u, _, h⟩ := bind_ok h
    exact ⟨source, parseProgram_ok h⟩
  · cases h

namespace Regime

/-! ## outcomes -/

section
variable {α β : Type} {R : Regime}

/-- an outcome outside of loops, or in one: the code in the state obeys the law, and the signal is in its
place -/
inductive Kept (R : Regime) (l : Bool) : EStateM.Result Signal World α → Prop
  | value (a : α) {u : World} (hu : u.Obeys R.law) : R.Kept l (.ok a u)
  | signal {s : Signal} {u : World} (hs : R.Ends l s) (hu : u.Obeys R.law) : R.Kept l (.error s u)

/-- the first evaluation stops and leaves the state `v`, or both have the same outcome -/
def Follows (R : Regime) (v : World) (l : Bool) (r r' : EStateM.Result Signal World α) : Prop :=
  r = .error .exhausted v ∨ r = r' ∧ R.Kept l r

variable {v w : World} {l l' : Bool}

/-- what may happen outside of loops may happen in one -/
theorem Kept.enter {r : EStateM.Result Signal World α} (h : R.Kept false r) : R.Kept l r := by
  cases h with
  | value a hu => exact .value a hu
  | signal hs hu => exact .signal (R.enter hs) hu

theorem follows_self {r : EStateM.Result Signal World α} (h : R.Kept l r) : R.Follows v l r r :=
  Or.inr ⟨rfl, h⟩

theorem follows_bind {x y : Exec α} {f g : α → Exec β} (h : R.Follows v l (x w) (y w))
    (hf : ∀ a u, x w = .ok a u → u.Obeys R.law → R.Follows v l (f a u) (g a u)) :
    R.Follows v l ((x >>= f) w) ((y >>= g) w) := by
  rw [bind_run, bind_run]
  rcases h with h | ⟨he, hs⟩
  · rw [h]
    exact Or.inl rfl
  · rw [← he]
    cases hx : x w with
    | ok a u =>
      rw [hx] at hs
      cases hs with
      | value _ hu => exact hf a u hx hu
    | error s u =>
      rw [hx] at hs
      cases hs with
      | signal hs hu => exact follows_self (.signal hs hu)

theorem follows_tryCatch {x y : Exec α} {f g : Signal → Exec α} (h : R.Follows v l' (x w) (y w))
    (hf : ∀ s, R.Ends l' s → ∀ u, u.Obeys R.law → R.Follows v l (f s u) (g s u))
    (he : f .exhausted = throw .exhausted) :
    R.Follows v l (tryCatch x f w) (tryCatch y g w) := by
  rw [tryCatch_run, tryCatch_run]
  rcases h with h | ⟨hxy, hs⟩
  · rw [h]
    dsimp only
    rw [he]
    exact Or.inl rfl
  · rw [← hxy]
    cases hx : x w with
    | ok a u =>
      rw [hx] at hs
      cases hs with
      | value _ hu => exact follows_self (.value a hu)
    | error s u =>
      rw [hx] at hs
      cases hs with
      | signal hs hu => exact hf s hs u hu

theorem kept_lawful {x : Exec α} (h : x.Lawful R.law) (hw : w.Obeys R.law) : R.Kept l (x w) := by
  obtain ⟨⟨_, hu⟩, hs⟩ := h w
  have ho := hu hw
  unfold Exec.after at ho
  cases hx : x w with
  | ok a u =>
    rw [hx] at ho
    exact .value a ho
  | error s u =>
    rw [hx] at ho
    exact .signal (R.other (hs s u hx).notBreak (hs s u hx).notContinue) ho

end

/-- from every state whose code obeys the law -/
def coupling (R : Regime) (v : World) : Coupling where
  law := R.law
  Ends := R.Ends
  Grows := False
  Rel _ l _ x y := ∀ w, w.Obeys R.law → R.Follows v l (x w) (y w)
  lawful h _ hw := follows_self (kept_lawful h hw)
  raise h _ hw := follows_self (.signal h hw)
  read h w hw := h w hw w hw
  exhausted _ h := h.elim
  bind h hf w hw := follows_bind (h w hw) fun a u _ hu => hf a u hu
  tryCatch h hf he w hw := follows_tryCatch (h w hw) hf he
  weaken h w hw := h w hw
  enter h w hw := (h w hw).imp id fun hs => ⟨hs.1, hs.2.enter⟩
  breakLoop := R.breakLoop
  continueLoop := R.continueLoop
  pass _ := R.other
  bindName s _ name x _ hw := follows_self (.value _ ⟨hw.functions, hw.callables, hw.tuples⟩)
  bindMessage s _ name x _ hw := by
    cases name with
    | none => exact follows_self (.value _ ⟨hw.functions, hw.callables, hw.tuples⟩)
    | some name => exact follows_self (.value _ ⟨hw.functions, hw.callables, hw.tuples⟩)
  fresh sc h w hw := h w.scopes.size _ ⟨hw.functions, hw.callables, hw.tuples⟩

variable {R : Regime} {v : World}

theorem coupling_unscoped : (R.coupling v).Unscoped := fun h => h

/-! ## machines -/

section
variable {w : World} (hw : w.Obeys R.law) {m m' : Machine} (h : m.Coupled (R.coupling v) m')
include hw h

/-- a file that is included as a statement, if it is accepted -/
theorem includeInPlace_follows {l : Bool} {name : String} {s : Nat}
    (hf : (foreignInclude R.accepts).tree s w (.includeFile name) = false) :
    R.Follows v l (includeInPlace m name s w) (includeInPlace m' name s w) := by
  rw [includeInPlace_eq, includeInPlace_eq]
  refine follows_bind (follows_self (kept_lawful (steady_includedProgram name).lawful hw)) ?_
  intro body u hp hu
  obtain ⟨source, hb⟩ := includedProgram_ok hp
  have ha : R.accepts body = true := by simpa [foreignInclude, hp] using hf
  exact includedBlock_coupled h s (R.accepted hb ha) u hu

omit h in
/-- a file that is included by a call, if it is accepted -/
theorem includeModule_follows {l : Bool} {args : List Value} {r : EStateM.Result Signal World Value}
    (hf : (foreignInclude R.accepts).call w (.builtin .load) args r = false) :
    R.Follows v l (includeModule args w) (includeModule args w) := by
  rw [includeModule_eq]
  refine follows_bind (follows_self (kept_lawful (steady_moduleProgram args).lawful hw)) ?_
  intro body u hp hu
  obtain ⟨source, hb⟩ := moduleProgram_ok hp
  have ha : R.accepts body = true := by simpa [foreignInclude, hp] using hf
  exact follows_self (kept_lawful (lawful_moduleMembers (R.accepted hb ha)) hu)

/-- a tree, if the file that it may include is accepted -/
theorem execNode_follows {node : Node} {l : Bool} (hn : node.Obeys R.law l) (s : Nat)
    (ho : (foreignInclude R.accepts).tree s w node = false) :
    R.Follows v l (execNode m s node w) (execNode m' s node w) := by
  have hp : node.isDeclaration = false → (∀ path, node ≠ .includeFile path) →
      R.Follows v l (execPlain m s node w) (execPlain m' s node w) := fun hd hi =>
    execPlain_coupled h s hn hd (fun path e => absurd e (hi path)) (fun _ _ => R.other nofun nofun)
      w hw
  cases node with
  | quoted x => exact absurd hn R.unquoted
  | global name => exact coupling_unscoped.evalGlobal_coupled s name w hw
  | classDef c => exact coupling_unscoped.declareClass_coupled none hn w hw
  | includeFile path => exact includeInPlace_follows hw h ho
  | _ => exact hp rfl nofun

/-- a call, if the file that it may include is accepted -/
theorem callValue_follows (f : Value) (args : List Value)
    (ho : (foreignInclude R.accepts).call w f args (callValue m f args w) = false) :
    R.Follows v false (callValue m f args w) (callValue m' f args w) := by
  by_cases hf : f = .builtin .load
  · subst hf
    exact includeModule_follows hw ho
  · exact callValue_coupled h (coupling_unscoped.fieldDefault_coupled h) f args
      (fun e => absurd e hf) w hw

end

/-- **A machine that stops at files that are not accepted is followed by one that stops at what is not
kept**: until the first one stops, the second one does not. -/
theorem stopped_coupled {b : Occasion} (ht : ∀ s w node, b.tree s w node = false)
    (hb : ∀ w f args r, R.Kept false r → b.call w f args r = false) (v u : World) (n : Nat) :
    (stopped (foreignInclude R.accepts) v n).Coupled (R.coupling v) (stopped b u n) := by
  induction n with
  | zero =>
    have hd {l : Bool} {w : World} (hw : w.Obeys R.law) :
        R.Kept l (.error .exhausted w : EStateM.Result Signal World Value) :=
      .signal (R.other nofun nofun) hw
    exact ⟨fun _ _ _ hw => follows_self (hd hw), fun _ _ _ hw => follows_self (hd hw), Or.inl rfl⟩
  | succ n ih =>
    refine ⟨fun {node l} hn s w hw => ?_, fun f args w hw => ?_, Or.inl rfl⟩
    · show R.Follows v l (if (foreignInclude R.accepts).tree s w node then _ else _)
        (if b.tree s w node then _ else _)
      rw [ht s w node, if_neg Bool.false_ne_true]
      split
      · exact Or.inl rfl
      · rename_i ho
        exact execNode_follows hw ih hn s (Bool.eq_false_iff.mpr ho)
    · show R.Follows v false (if (foreignInclude R.accepts).call w f args _ then _ else _)
        (if b.call w f args _ then _ else _)
      split
      · exact Or.inl rfl
      · rename_i ho
        rcases callValue_follows hw ih f args (Bool.eq_false_iff.mpr ho) with he | ⟨he, hs⟩
        · exact Or.inl he
        · rw [← he, hb w f args _ hs, if_neg Bool.false_ne_true]
          exact follows_self hs

end Regime

/-! ## runs -/

theorem exists_ne_exhausted {α : Type} (r : EStateM.Result Signal World α) :
    ∃ v, r ≠ .error .exhausted v := by
  cases r with
  | ok a u => exact ⟨default, nofun⟩
  | error s u =>
    refine ⟨{ u with nans := u.nans + 1 }, fun h => ?_⟩
    have hn := congrArg World.nans (EStateM.Result.error.inj h).2
    exact absurd hn (Nat.ne_of_lt (Nat.lt_succ_self _))

/-- what no run comes to -/
def Occasion.none : Occasion := ⟨fun _ _ _ => false, fun _ _ _ _ => false⟩

/-- **An accepted program that comes to no file that is not keeps the regime.** -/
theorem Regime.runSource_kept {R : Regime} {n : Nat} {source : String} {w : World} (hw : w.Obeys R.law)
    (hp : ∀ body, parseSource source = .ok body → R.accepts body = true)
    (hi : Never (foreignInclude R.accepts) n source w) : R.Kept false (runSource n source w) := by
  obtain ⟨v, hv⟩ := exists_ne_exhausted (runSource n source w)
  have hm := R.stopped_coupled (b := .none) (fun _ _ _ => rfl) (fun _ _ _ _ _ => rfl) v v n
  rcases runOn_coupled coupling_unscoped hm (fun body hb => R.accepted hb (hp body hb)) w hw with he | he
  · rw [hi v] at he
    exact absurd he hv
  · rw [hi v] at he
    exact he.2

end BraceScript
