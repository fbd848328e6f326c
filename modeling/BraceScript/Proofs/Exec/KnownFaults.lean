import BraceScript.Eval.Exec
import BraceScript.Proofs.Exec.Showable

/-!
# Computations with known faults

The fault for a tree without a rule comes from the rules of trees only, and so do faults that carry a
value: no computation on numbers, texts, paths and values fails with one of them.

* `Known`          a computation does not fail with such a fault
* `known_bind`     how such computations are put together
* `known_arith`, `known_shown`, ...   the computations on values
-/

namespace BraceScript

variable {α β : Type}

/-- is a fault neither that of a tree without a rule nor one that carries a value? -/
def Fault.isKnown : Fault → Bool
  | .unknownNode _ => false
  | .thrown _ => false
  | .missingKey _ => false
  | _ => true

theorem Fault.ne_unknownNode {f : Fault} (h : f.isKnown = true) (shown : String) : f ≠ .unknownNode shown := by
  rintro rfl
  cases h

def Known (r : Except Fault α) : Prop := ∀ f, r = .error f → f.isKnown = true

@[simp] theorem known_ok (a : α) : Known (.ok a) := nofun

@[simp] theorem known_pure (a : α) : Known (pure a) := nofun

@[simp] theorem known_error {f : Fault} (hu : ∀ shown, f ≠ .unknownNode shown) (ht : ∀ v, f ≠ .thrown v)
    (hm : ∀ v, f ≠ .missingKey v) : Known (.error f : Except Fault α) := by
  intro g e
  cases e
  unfold Fault.isKnown
  split
  · exact absurd rfl (hu _)
  · exact absurd rfl (ht _)
  · exact absurd rfl (hm _)
  · rfl

@[simp] theorem known_throw {f : Fault} (hu : ∀ shown, f ≠ .unknownNode shown) (ht : ∀ v, f ≠ .thrown v)
    (hm : ∀ v, f ≠ .missingKey v) : Known (throw f : Except Fault α) := known_error hu ht hm

theorem known_bind {r : Except Fault α} {f : α → Except Fault β} (hr : Known r)
    (hf : ∀ a, Known (f a)) : Known (r >>= f) := by
  cases r with
  | ok a => exact hf a
  | error e => exact fun g he => hr g (congrArg _ (Except.error.inj he))

theorem TextIf.known {r : Except Fault α} {b : Bool} (h : TextIf r b) : Known r := by
  cases h with
  | text a => exact known_ok a
  | none => exact known_error nofun nofun nofun

/-! ## numbers -/

namespace Numeric

@[simp] theorem known_toDouble (a : Numeric) : Known a.toDouble := by
  unfold toDouble
  dsimp only
  repeat' split
  all_goals simp

theorem known_onDoubles {f : Double → Double → Except Fault Double} (hf : ∀ x y, Known (f x y))
    (a b : Numeric) : Known (onDoubles f a b) :=
  known_bind a.known_toDouble fun x => known_bind b.known_toDouble fun y =>
    known_bind (hf x y) fun _ => known_ok _

@[simp] theorem known_arith (op : ArithOp) (a b : Numeric) : Known (arith op a b) := by
  have hd : ∀ (a b : Numeric) (f : Double → Double → Double),
      Known (onDoubles (fun x y => .ok (f x y)) a b) :=
    fun a b f => known_onDoubles (fun x y => known_ok _) a b
  have hz : ∀ (a b : Numeric) (f : Double → Double → Double) (e : Fault),
      Known (.error e : Except Fault Double) →
      Known (onDoubles (fun x y => if y.isZero then .error e else .ok (f x y)) a b) := by
    intro a b f e he
    refine known_onDoubles (fun x y => ?_) a b
    split
    · exact he
    · exact known_ok _
  cases op with
  | div =>
    show Known (div a b)
    unfold div divInt
    dsimp only
    split
    · repeat' split
      all_goals simp
    · exact hz _ _ _ _ (known_error nofun nofun nofun)
  | mod =>
    show Known (mod a b)
    unfold mod
    split
    · split <;> simp
    · exact hz _ _ _ _ (known_error nofun nofun nofun)
  | _ =>
    simp only [arith, add, sub, mul]
    split
    · exact known_ok _
    · exact hd _ _ _

@[simp] theorem known_power (a b : Numeric) : Known (power a b) := by
  have hp : Known (onDoubles Double.power a b) := by
    refine known_onDoubles (fun x y => ?_) a b
    unfold Double.power
    dsimp only
    repeat' split
    all_goals simp
  unfold power
  repeat' split
  all_goals simp [hp]

end Numeric

@[simp] theorem known_integer (d : Directive) (letter : Char) (n : Int) :
    Known (d.integer letter n) := by
  unfold Directive.integer
  dsimp only
  repeat' first | split | with_reducible refine known_bind ?_ fun _ => ?_
  all_goals first | exact known_ok _ | exact known_error nofun nofun nofun

/-! ## values -/

namespace World

variable (w : World)

@[simp] theorem known_shown (v : Value) : Known (w.shown v) := (w.textIf_shown v).known

@[simp] theorem known_plain (v : Value) : Known (w.plain v) := (w.textIf_plain v).known

@[simp] theorem known_signalText (s : Signal) : Known (w.signalText s) := (w.textIf_signalText s).known

theorem known_lessItems {eq : Value → Value → Bool} {lt : Value → Value → Except Fault Bool}
    (hl : ∀ a b, Known (lt a b)) (as bs : List Value) : Known (lessItems eq lt as bs) := by
  fun_induction lessItems eq lt as bs with
  | case1 a as b bs h ih => exact ih
  | case2 a as b bs h => exact hl a b
  | case3 => exact known_ok _
  | case4 => exact known_ok _

@[simp] theorem known_less (a b : Value) : Known (w.less a b) := by
  have hl : ∀ fuel a b, Known (w.lessWith fuel a b) := by
    intro fuel
    induction fuel with
    | zero => exact fun _ _ => known_ok _
    | succ fuel ih =>
      intro a b
      unfold lessWith lessStep
      repeat' split
      all_goals first
        | exact known_lessItems ih _ _
        | simp
  exact hl _ a b

end World

/-! ## sorting -/

section
variable {less : Value → Value → Except Fault Bool} (hl : ∀ a b, Known (less a b))
include hl

theorem known_runLength (last : Value) (vs : List Value) : Known (runLength less last vs) := by
  induction vs generalizing last with
  | nil => exact known_ok _
  | cons v vs ih =>
    unfold runLength
    refine known_bind (hl last v) fun t => ?_
    split
    · exact known_bind (ih v) fun _ => known_ok _
    · exact known_ok _

theorem known_insertPlace (sorted : Array Value) (v : Value) (fuel low high : Nat) :
    Known (insertPlace less sorted v fuel low high) := by
  induction fuel generalizing low high with
  | zero => exact known_ok _
  | succ fuel ih =>
    unfold insertPlace
    split
    · refine known_bind (hl _ _) fun t => ?_
      split <;> exact ih _ _
    · exact known_ok _

theorem known_insertAll (sorted : Array Value) (vs : List Value) :
    ∀ f, (insertAll less sorted vs).fault = some f → f.isKnown = true := by
  induction vs generalizing sorted with
  | nil => exact nofun
  | cons v vs ih =>
    unfold insertAll
    split
    · rename_i f hf
      exact fun g e => known_insertPlace hl _ _ _ _ _ g (hf.trans (congrArg _ (Option.some.inj e)))
    · exact ih _

theorem known_sortItems (reverse : Bool) (vs : List Value) :
    ∀ f, (sortItems less reverse vs).fault = some f → f.isKnown = true := by
  have hf : ∀ vs f, (sortForward less vs).fault = some f → f.isKnown = true := by
    intro vs
    unfold sortForward
    split
    · rename_i a b rest
      split
      · rename_i f h
        exact fun t e => hl b a t (h.trans (congrArg _ (Option.some.inj e)))
      · rename_i down _
        dsimp only
        split
        · rename_i f h
          refine fun t e => ?_
          have hs : ∀ x y, Known ((if down = true then fun x y => less y x
              else fun x y => do return !(← less y x)) x y) := by
            intro x y
            cases down with
            | true => exact hl y x
            | false => exact known_bind (hl y x) fun _ => known_ok _
          exact known_runLength hs b rest t (h.trans (congrArg _ (Option.some.inj e)))
        · exact known_insertAll hl _ _
    · exact nofun
  unfold sortItems
  split
  · exact hf _
  · exact hf _

end

/-! ## arguments and files -/

@[simp] theorem known_bindFixed (s : Scope) (names : List String) (vs : List Value) :
    Known (bindFixed s names vs) := by
  fun_induction bindFixed s names vs with
  | case1 => exact known_ok _
  | case2 => exact known_error nofun nofun nofun
  | case3 _ _ _ _ _ ih => exact ih

@[simp] theorem known_keywordNames (n : Nat) (vs : List Value) : Known (keywordNames n vs) := by
  fun_induction keywordNames n vs with
  | case1 => exact known_ok _
  | case2 _ _ _ ih => exact known_bind ih fun _ => known_ok _
  | case3 => exact known_error nofun nofun nofun

@[simp] theorem known_pathOf (v : Value) : Known (Exec.pathOf v) := by
  unfold Exec.pathOf
  split <;> simp

@[simp] theorem known_fileMode (mode : String) : Known (FileMode.ofText mode) := by
  unfold FileMode.ofText
  dsimp only
  repeat' split
  all_goals simp

@[simp] theorem known_toRead (d : Disk) (path : String) : Known (d.toRead path) := by
  unfold Disk.toRead
  repeat' split
  all_goals simp

@[simp] theorem known_toWrite (d : Disk) (path : String) : Known (d.toWrite path) := by
  unfold Disk.toWrite
  repeat' split
  all_goals simp

end BraceScript
