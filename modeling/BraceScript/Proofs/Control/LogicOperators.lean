import BraceScript.Proofs.Exec.Outcomes

/-!
# Logical operators

The operators `and`, `or`, `not` and the choice between two trees look at the truth values of their
operands. Here they are compared with operators that keep the operand that decided: both evaluate the
same operands in the same order, and their results have the same truth value.

* `Logic`             trees of logical operators over operands
* `Logic.parts`       the first operand of an operator, and what it does from its truth value
* `Logic.Evaluates`   which operands a tree evaluates, from which states, and how it ends
* `executes_iff_evaluates`   the machine follows these rules
* `Logic.Evaluates.alike`    the rules for two kinds of operators visit the same operands
-/

namespace BraceScript

open Exec

/-! ## trees and rules -/

/-- a tree of logical operators over operands -/
inductive Logic where
  | operand (e : Node)
  | and (left right : Logic)
  | or (left right : Logic)
  | not (operand : Logic)
  | ternary (condition yes no : Logic)

def Logic.node : Logic → Node
  | .operand e => e
  | .and left right => .and left.node right.node
  | .or left right => .or left.node right.node
  | .not t => .not t.node
  | .ternary c yes no => .ternary c.node yes.node no.node

/-- one evaluation of an operand: the state that it starts from, and how it ends -/
structure Visit where
  operand : Node
  before : World
  ending : Ending

/-- the value of an operator that its first operand decides, from the truth value of this operand and the
operand's value -/
abbrev Shortcut := Bool → Value → Value

def giveTruth : Shortcut := fun b _ => .bool b

def giveOperand : Shortcut := fun _ v => v

/-- what an operator does when it knows the truth value of its first operand: this operand decides, or the
truth value is negated, or another operand follows -/
inductive Verdict (α : Type) where
  | decided
  | negated
  | next (operand : α)

def Verdict.map {α β : Type} (f : α → β) : Verdict α → Verdict β
  | .decided => .decided
  | .negated => .negated
  | .next a => .next (f a)

/-- the first operand of an operator, and what it does from its truth value -/
def Logic.parts : Logic → Option (Logic × (Bool → Verdict Logic))
  | .operand _ => none
  | .and left right => some (left, fun b => if b then .next right else .decided)
  | .or left right => some (left, fun b => if b then .decided else .next right)
  | .not t => some (t, fun _ => .negated)
  | .ternary c yes no => some (c, fun b => if b then .next yes else .next no)

/-- a tree of operators with a given shortcut makes visits to its operands and comes to an end -/
inductive Logic.Evaluates (short : Shortcut) (scope : Nat) : Logic → World → List Visit → Ending → Prop
  | operand {e w r} : Executes e scope w r → Evaluates short scope (.operand e) w [⟨e, w, r⟩] r
  | error {t first verdict w visits s u} : t.parts = some (first, verdict) →
      Evaluates short scope first w visits (.error s u) → Evaluates short scope t w visits (.error s u)
  | decided {t first verdict w visits v u} : t.parts = some (first, verdict) →
      Evaluates short scope first w visits (.ok v u) → verdict (u.truth v) = .decided →
      Evaluates short scope t w visits (.ok (short (u.truth v) v) u)
  | negated {t first verdict w visits v u} : t.parts = some (first, verdict) →
      Evaluates short scope first w visits (.ok v u) → verdict (u.truth v) = .negated →
      Evaluates short scope t w visits (.ok (.bool (!u.truth v)) u)
  | next {t first verdict w visits v u t' visits' r} : t.parts = some (first, verdict) →
      Evaluates short scope first w visits (.ok v u) → verdict (u.truth v) = .next t' →
      Evaluates short scope t' u visits' r → Evaluates short scope t w (visits ++ visits') r

/-! ## the machine -/

section
variable {scope : Nat} {w : World} {r : Ending}

/-- go on from the truth value of the first operand -/
def Verdict.run (scope n : Nat) (b : Bool) : Verdict Node → Exec Value
  | .decided => pure (.bool b)
  | .negated => pure (.bool (!b))
  | .next node => (machine n).exec node scope

/-- how an operator ends that goes on from the truth value of its first operand -/
def Verdict.Ends (scope : Nat) (u : World) (b : Bool) (r : Ending) : Verdict Node → Prop
  | .decided => r = .ok (.bool b) u
  | .negated => r = .ok (.bool (!b)) u
  | .next node => Executes node scope u r

theorem Verdict.ends_of_run {c : Verdict Node} {n : Nat} {b : Bool} {u : World} (h : c.run scope n b u = r)
    (hr : ¬ r.Exhausted) : c.Ends scope u b r := by
  cases c with
  | decided => exact h.symm
  | negated => exact h.symm
  | next node => exact ⟨n, h, hr⟩

theorem Verdict.Ends.run {c : Verdict Node} {b : Bool} {u : World} (h : c.Ends scope u b r) :
    ∃ n, ∀ n', n ≤ n' → c.run scope n' b u = r := by
  cases c with
  | decided => exact ⟨0, fun _ _ => h.symm⟩
  | negated => exact ⟨0, fun _ _ => h.symm⟩
  | next node => exact Executes.eventually h

theorem Verdict.Ends.not_exhausted {c : Verdict Node} {b : Bool} {u : World} (h : c.Ends scope u b r) :
    ¬ r.Exhausted := by
  cases c with
  | decided =>
    cases h
    exact not_exhausted_ok _ u
  | negated =>
    cases h
    exact not_exhausted_ok _ u
  | next node =>
    obtain ⟨_, _, hr⟩ := h
    exact hr

/-- an operator evaluates its first operand and goes on from its truth value -/
theorem Logic.exec_operator {t first : Logic} {verdict : Bool → Verdict Logic} (h : t.parts = some (first, verdict))
    (n : Nat) : (machine (n + 1)).exec t.node scope =
      (machine n).exec first.node scope >>= fun v => Exec.truth v >>= fun b =>
        ((verdict b).map Logic.node).run scope n b := by
  have hrun (x y : Verdict Logic) (b : Bool) : ((if b then x else y).map Logic.node).run scope n b =
      if b then (x.map Logic.node).run scope n true else (y.map Logic.node).run scope n false := by
    cases b <;> rfl
  cases t with
  | operand e => cases h
  | not a =>
    cases h
    rfl
  | _ =>
    cases h
    simp only [hrun]
    rfl

/-- an operator ends as its first operand if that fails, and else by the verdict of its truth value -/
theorem Logic.executes_operator {t first : Logic} {verdict : Bool → Verdict Logic}
    (h : t.parts = some (first, verdict)) : Executes t.node scope w r ↔
      (∃ s u, Executes first.node scope w (.error s u) ∧ r = .error s u) ∨
      ∃ v u, Executes first.node scope w (.ok v u) ∧
        ((verdict (u.truth v)).map Logic.node).Ends scope u (u.truth v) r := by
  constructor
  · rintro ⟨n, hn, hr⟩
    cases n with
    | zero => exact absurd ⟨w, hn.symm⟩ hr
    | succ n =>
      rw [exec_operator h, bind_run] at hn
      cases hf : (machine n).exec first.node scope w with
      | error s u =>
        rw [hf] at hn
        cases hn
        exact Or.inl ⟨s, u, ⟨n, hf, hr⟩, rfl⟩
      | ok v u =>
        rw [hf] at hn
        exact Or.inr ⟨v, u, ⟨n, hf, not_exhausted_ok v u⟩, Verdict.ends_of_run hn hr⟩
  · rintro (⟨s, u, ⟨n, hn, hr⟩, rfl⟩ | ⟨v, u, hf, hnext⟩)
    · exact ⟨n + 1, by rw [exec_operator h, bind_run, hn], hr⟩
    · obtain ⟨n, hn⟩ := hf.eventually
      obtain ⟨n', hn'⟩ := hnext.run
      refine ⟨max n n' + 1, ?_, hnext.not_exhausted⟩
      rw [exec_operator h, bind_run, hn _ (Nat.le_max_left n n')]
      exact hn' _ (Nat.le_max_right n n')

/-- a tree executes by the rules of the operators that give truth values -/
def Logic.Follows (scope : Nat) (t : Logic) : Prop :=
  ∀ {w r}, Executes t.node scope w r ↔ ∃ visits, t.Evaluates giveTruth scope w visits r

theorem Logic.follows_operator {t first : Logic} {verdict : Bool → Verdict Logic} (h : t.parts = some (first, verdict))
    (hfirst : first.Follows scope) (hnext : ∀ {b t'}, verdict b = .next t' → t'.Follows scope) : t.Follows scope := by
  intro w r
  rw [executes_operator h]
  constructor
  · rintro (⟨s, u, hf, rfl⟩ | ⟨v, u, hf, hn⟩)
    · obtain ⟨visits, hv⟩ := hfirst.mp hf
      exact ⟨visits, .error h hv⟩
    · obtain ⟨visits, hv⟩ := hfirst.mp hf
      cases hc : verdict (u.truth v) with
      | decided =>
        rw [hc] at hn
        cases hn
        exact ⟨visits, .decided h hv hc⟩
      | negated =>
        rw [hc] at hn
        cases hn
        exact ⟨visits, .negated h hv hc⟩
      | next t' =>
        rw [hc] at hn
        obtain ⟨visits', hv'⟩ := (hnext hc).mp hn
        exact ⟨visits ++ visits', .next h hv hc hv'⟩
  · rintro ⟨visits, hv⟩
    cases hv with
    | operand => cases h
    | error h' hf =>
      cases h.symm.trans h'
      exact Or.inl ⟨_, _, hfirst.mpr ⟨_, hf⟩, rfl⟩
    | decided h' hf hc =>
      cases h.symm.trans h'
      exact Or.inr ⟨_, _, hfirst.mpr ⟨_, hf⟩, by rw [hc]; rfl⟩
    | negated h' hf hc =>
      cases h.symm.trans h'
      exact Or.inr ⟨_, _, hfirst.mpr ⟨_, hf⟩, by rw [hc]; rfl⟩
    | next h' hf hc hn =>
      cases h.symm.trans h'
      exact Or.inr ⟨_, _, hfirst.mpr ⟨_, hf⟩, by rw [hc]; exact (hnext hc).mpr ⟨_, hn⟩⟩

end

/-- every tree of operators executes by these rules -/
theorem executes_iff_evaluates (t : Logic) {scope : Nat} : t.Follows scope := by
  induction t with
  | operand e =>
    intro w r
    constructor
    · exact fun h => ⟨_, .operand h⟩
    · rintro ⟨visits, h⟩
      cases h with
      | operand h => exact h
      | _ h => cases h
  | and left right ihl ihr =>
    refine Logic.follows_operator rfl ihl fun {b t'} hc => ?_
    cases b <;> cases hc
    exact ihr
  | or left right ihl ihr =>
    refine Logic.follows_operator rfl ihl fun {b t'} hc => ?_
    cases b <;> cases hc
    exact ihr
  | not a iha => exact Logic.follows_operator rfl iha fun hc => by cases hc
  | ternary c yes no ihc ihy ihn =>
    refine Logic.follows_operator rfl ihc fun {b t'} hc => ?_
    cases b <;> cases hc
    · exact ihn
    · exact ihy

/-! ## two kinds of operators -/

/-- two ends with the same signal, or with values of the same truth value, and in the same state -/
inductive Ending.SameTruth : Ending → Ending → Prop
  | value {v v' : Value} {u : World} : u.truth v = u.truth v' → SameTruth (.ok v u) (.ok v' u)
  | signal (s : Signal) (u : World) : SameTruth (.error s u) (.error s u)

theorem Ending.SameTruth.refl (r : Ending) : r.SameTruth r := by
  cases r with
  | ok v u => exact .value rfl
  | error s u => exact .signal s u

theorem Ending.SameTruth.symm {r r' : Ending} (h : r.SameTruth r') : r'.SameTruth r := by
  cases h with
  | value h => exact .value h.symm
  | signal s u => exact .signal s u

/-- a shortcut whose value has the truth value that decided -/
def Shortcut.Truthful (short : Shortcut) : Prop := ∀ (u : World) (v : Value), u.truth (short (u.truth v) v) = u.truth v

theorem giveTruth_truthful : Shortcut.Truthful giveTruth := by
  intro u v
  show u.truth (.bool (u.truth v)) = u.truth v
  cases u.truth v <;> rfl

theorem giveOperand_truthful : Shortcut.Truthful giveOperand := fun _ _ => rfl

theorem Shortcut.Truthful.sameTruth {short short' : Shortcut} (hs : short.Truthful) (hs' : short'.Truthful) {b : Bool}
    {v v' : Value} {u : World} (hv : u.truth v = b) (hv' : u.truth v' = b) :
    Ending.SameTruth (.ok (short b v) u) (.ok (short' b v') u) := by
  have h := hs u v
  have h' := hs' u v'
  rw [hv] at h
  rw [hv'] at h'
  exact .value (h.trans h'.symm)

/-- operators that are truthful visit the same operands, whatever values they give -/
theorem Logic.Evaluates.alike {short short' : Shortcut} (hs : short.Truthful) (hs' : short'.Truthful) {t : Logic}
    {scope : Nat} {w : World} {visits : List Visit} {r : Ending} (h : t.Evaluates short scope w visits r) :
    ∃ r', t.Evaluates short' scope w visits r' ∧ r.SameTruth r' := by
  induction h with
  | operand h => exact ⟨_, .operand h, .refl _⟩
  | error hp _ ih =>
    obtain ⟨_, hf, ht⟩ := ih
    cases ht
    exact ⟨_, .error hp hf, .signal _ _⟩
  | decided hp _ hc ih =>
    obtain ⟨_, hf, ht⟩ := ih
    cases ht with
    | value ht =>
      rw [ht] at hc ⊢
      exact ⟨_, .decided hp hf hc, hs.sameTruth hs' ht rfl⟩
  | negated hp _ hc ih =>
    obtain ⟨_, hf, ht⟩ := ih
    cases ht with
    | value ht =>
      rw [ht] at hc ⊢
      exact ⟨_, .negated hp hf hc, .refl _⟩
  | next hp _ hc _ ihf ihn =>
    obtain ⟨_, hf, ht⟩ := ihf
    obtain ⟨r', hn, ht'⟩ := ihn
    cases ht with
    | value ht =>
      rw [ht] at hc
      exact ⟨r', .next hp hf hc hn, ht'⟩

/-- A tree of logical operators that comes to an end visits the operands, from the same states and with the
same ends, that operators which give the deciding operand visit, and it ends with the same signal or with a
value of the same truth value. It comes to an end whenever such operators do. -/
theorem logic_visits (t : Logic) (scope : Nat) (w : World) :
    (∀ r, Executes t.node scope w r → ∃ visits r', t.Evaluates giveTruth scope w visits r ∧
      t.Evaluates giveOperand scope w visits r' ∧ r.SameTruth r') ∧
    ∀ visits r', t.Evaluates giveOperand scope w visits r' → ∃ r, Executes t.node scope w r ∧
      t.Evaluates giveTruth scope w visits r ∧ r.SameTruth r' := by
  constructor
  · intro r h
    obtain ⟨visits, ht⟩ := (executes_iff_evaluates t).mp h
    obtain ⟨r', ht', hsame⟩ := ht.alike giveTruth_truthful giveOperand_truthful
    exact ⟨visits, r', ht, ht', hsame⟩
  · intro visits r' h
    obtain ⟨r, ht, hsame⟩ := h.alike giveOperand_truthful giveTruth_truthful
    exact ⟨r, (executes_iff_evaluates t).mpr ⟨visits, ht⟩, ht, hsame.symm⟩

end BraceScript
