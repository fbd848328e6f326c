import BraceScript.Store.Reach
import Mathlib.Data.List.Forall2
import Mathlib.Data.Option.Basic

/-!
# Cells that stand for each other

Two programs that do the same make the same cells in the same order, but not at the same places when one of
them started with more cells than the other. A pairing says which cells stand for each other: some of those
that were there at the start, and all that are made later, one by one.

* `Pairing`, `Pairing.Pairs`   the cells of one kind that stand for each other
* `Pairing.Cells`              two arrays of cells with related contents
* `Bond`, `Bond.Val`           the pairings of two runs, and the values that stand for each other
* `Bond.Same`                  the cells that stand for each other
-/

namespace BraceScript

theorem getD_congr {α : Type} {cells cells' : Array α} {i : Nat} (h : cells[i]? = cells'[i]?) (a : α) :
    cells.getD i a = cells'.getD i a := by
  rw [Array.getD_eq_getD_getElem?, Array.getD_eq_getD_getElem?, h]

/-- the cells of one kind that stand for each other in two stores, among those at the start -/
structure Pairing where
  /-- which of the cells at the start stand for each other -/
  old : Nat → Nat → Prop
  /-- how many cells there are at the start -/
  left : Nat
  right : Nat
  left_lt : ∀ {i j : Nat}, old i j → i < left
  right_lt : ∀ {i j : Nat}, old i j → j < right
  left_inj : ∀ {i i' j : Nat}, old i j → old i' j → i = i'
  right_inj : ∀ {i j j' : Nat}, old i j → old i j' → j = j'

namespace Pairing

variable {α : Type} {p : Pairing} {i i' j j' : Nat}

/-- the cells that stand for each other: cells at the start, or cells made after it, in order -/
inductive Pairs (p : Pairing) : Nat → Nat → Prop
  | old {i j : Nat} (h : p.old i j) : Pairs p i j
  | new (k : Nat) : Pairs p (p.left + k) (p.right + k)

theorem Pairs.eq_iff (h : p.Pairs i j) (h' : p.Pairs i' j') : i = i' ↔ j = j' := by
  cases h with
  | old h =>
    cases h' with
    | old h' =>
      constructor
      · rintro rfl
        exact p.right_inj h h'
      · rintro rfl
        exact p.left_inj h h'
    | new k =>
      have h1 := p.left_lt h
      have h2 := p.right_lt h
      omega
  | new k =>
    cases h' with
    | old h' =>
      have h1 := p.left_lt h'
      have h2 := p.right_lt h'
      omega
    | new k' => omega

/-- two arrays of cells: as many cells were made in both, the contents of cells that stand for each other
are related, and a cell that stands for none is as it was -/
structure Cells (p : Pairing) (R : α → α → Prop) (start start' a a' : Array α) : Prop where
  size : ∃ k, a.size = p.left + k ∧ a'.size = p.right + k
  rel {i j : Nat} : p.Pairs i j → Option.Rel R a[i]? a'[j]?
  kept (i : Nat) : i < p.left → (∀ j, ¬ p.old i j) → a[i]? = start[i]?
  kept' (j : Nat) : j < p.right → (∀ i, ¬ p.old i j) → a'[j]? = start'[j]?

namespace Cells

variable {R : α → α → Prop} {start start' a a' : Array α}

theorem pairs_size (h : p.Cells R start start' a a') : p.Pairs a.size a'.size := by
  obtain ⟨k, hk, hk'⟩ := h.size
  rw [hk, hk']
  exact .new k

theorem getD (h : p.Cells R start start' a a') (hp : p.Pairs i j) {x x' : α} (hd : R x x') :
    R (a.getD i x) (a'.getD j x') := by
  rw [Array.getD_eq_getD_getElem?, Array.getD_eq_getD_getElem?]
  have hr := h.rel hp
  revert hr
  generalize a[i]? = o
  generalize a'[j]? = o'
  rintro (hr | _)
  · exact hr
  · exact hd

theorem push (h : p.Cells R start start' a a') {x x' : α} (hx : R x x') :
    p.Cells R start start' (a.push x) (a'.push x') where
  size := by
    obtain ⟨k, hk, hk'⟩ := h.size
    exact ⟨k + 1, by rw [Array.size_push, hk, Nat.add_assoc], by rw [Array.size_push, hk', Nat.add_assoc]⟩
  rel {i j} hp := by
    rw [Array.getElem?_push, Array.getElem?_push]
    by_cases hi : i = a.size
    · have hj := (hp.eq_iff h.pairs_size).mp hi
      rw [if_pos hi, if_pos hj]
      exact .some hx
    · have hj : ¬ j = a'.size := fun hj => hi ((hp.eq_iff h.pairs_size).mpr hj)
      rw [if_neg hi, if_neg hj]
      exact h.rel hp
  kept i hi hn := by
    obtain ⟨k, hk, -⟩ := h.size
    rw [Array.getElem?_push, if_neg (by omega)]
    exact h.kept i hi hn
  kept' j hj hn := by
    obtain ⟨k, -, hk⟩ := h.size
    rw [Array.getElem?_push, if_neg (by omega)]
    exact h.kept' j hj hn

theorem modifyAt (h : p.Cells R start start' a a') (hp : p.Pairs i j) {f f' : α → α}
    (hf : ∀ {x x'}, a[i]? = some x → a'[j]? = some x' → R x x' → R (f x) (f' x')) :
    p.Cells R start start' (a.modify i f) (a'.modify j f') where
  size := by
    rw [Array.size_modify, Array.size_modify]
    exact h.size
  rel {i' j'} hp' := by
    rw [Array.getElem?_modify, Array.getElem?_modify]
    have hr := h.rel hp'
    by_cases hi : i = i'
    · have hj := (hp.eq_iff hp').mp hi
      subst hi hj
      rw [if_pos rfl, if_pos rfl]
      revert hr hf
      generalize a[i]? = o
      generalize a'[j]? = o'
      rintro hf (hr | _)
      · exact .some (hf rfl rfl hr)
      · exact .none
    · rw [if_neg hi, if_neg fun hj => hi ((hp.eq_iff hp').mpr hj)]
      exact hr
  kept i' hi hn := by
    have hne : i ≠ i' := by
      rintro rfl
      cases hp with
      | old ho => exact hn j ho
      | new k => omega
    rw [Array.getElem?_modify, if_neg hne]
    exact h.kept i' hi hn
  kept' j' hj hn := by
    have hne : j ≠ j' := by
      rintro rfl
      cases hp with
      | old ho => exact hn i ho
      | new k => omega
    rw [Array.getElem?_modify, if_neg hne]
    exact h.kept' j' hj hn

theorem modify (h : p.Cells R start start' a a') (hp : p.Pairs i j) {f f' : α → α}
    (hf : ∀ {x x'}, R x x' → R (f x) (f' x')) :
    p.Cells R start start' (a.modify i f) (a'.modify j f') := h.modifyAt hp fun _ _ hx => hf hx

theorem setIfInBounds (h : p.Cells R start start' a a') (hp : p.Pairs i j) {x x' : α} (hx : R x x') :
    p.Cells R start start' (a.setIfInBounds i x) (a'.setIfInBounds j x') := by
  have he (b : Array α) (i : Nat) (x : α) : b.setIfInBounds i x = b.modify i fun _ => x := by
    refine Array.ext_getElem? fun k => ?_
    rw [Array.getElem?_setIfInBounds, Array.getElem?_modify]
    by_cases hk : i = k
    · subst hk
      by_cases hb : i < b.size
      · rw [if_pos rfl, if_pos rfl, if_pos hb, Array.getElem?_eq_getElem hb]
        rfl
      · rw [if_pos rfl, if_pos rfl, if_neg hb, Array.getElem?_eq_none (Nat.le_of_not_lt hb)]
        rfl
    · rw [if_neg hk, if_neg hk]
  rw [he, he]
  exact h.modify hp fun _ => hx

end Cells

end Pairing

/-! ## values -/

/-- which cells of two runs stand for each other, and what the runs started with -/
structure Bond where
  lists : Pairing
  dicts : Pairing
  tuples : Pairing
  functions : Pairing
  callables : Pairing
  scopes : Pairing
  /-- the results that were not a number -/
  nans : Pairing
  /-- the states at the start -/
  start : World
  start' : World
  /-- names that may be bound to values that do not stand for each other -/
  foreign : String → Prop
  /-- the cells that these values lead to -/
  inert : Cell → Prop
  inert' : Cell → Prop
  /-- the states that the first run leaves where it is stopped -/
  stops : World → Prop
  /-- the scopes that these names are bound in at the start -/
  home : Nat := start.globals
  home' : Nat := start'.globals
  /-- the names that the second run does not bind anew in this scope -/
  pinned : String → Prop := fun _ => False
  /-- what the runs hold while they last -/
  base : List Cell := []
  base' : List Cell := []

namespace Bond

variable (B : Bond)

/-- the values that stand for each other -/
inductive Val : Value → Value → Prop
  | null : Val .null .null
  | bool (b : Bool) : Val (.bool b) (.bool b)
  | int (n : Int) : Val (.int n) (.int n)
  | float (x : Double) : Val (.float x) (.float x)
  | nan {i j : Nat} (h : B.nans.Pairs i j) : Val (.nan i) (.nan j)
  | str (s : String) : Val (.str s) (.str s)
  | list {i j : Nat} (h : B.lists.Pairs i j) : Val (.list i) (.list j)
  | dict {i j : Nat} (h : B.dicts.Pairs i j) : Val (.dict i) (.dict j)
  | tuple {i j : Nat} (h : B.tuples.Pairs i j) : Val (.tuple i) (.tuple j)
  | function {i j : Nat} (h : B.functions.Pairs i j) : Val (.function i) (.function j)
  | callable {i j : Nat} (h : B.callables.Pairs i j) : Val (.callable i) (.callable j)
  | builtin (b : Builtin) : Val (.builtin b) (.builtin b)
  | file (cell : Nat) : Val (.file cell) (.file cell)

/-- cells that stand for each other -/
inductive Same : Cell → Cell → Prop
  | list {i j : Nat} (h : B.lists.Pairs i j) : Same (.list i) (.list j)
  | dict {i j : Nat} (h : B.dicts.Pairs i j) : Same (.dict i) (.dict j)
  | tuple {i j : Nat} (h : B.tuples.Pairs i j) : Same (.tuple i) (.tuple j)
  | function {i j : Nat} (h : B.functions.Pairs i j) : Same (.function i) (.function j)
  | callable {i j : Nat} (h : B.callables.Pairs i j) : Same (.callable i) (.callable j)
  | scope {i j : Nat} (h : B.scopes.Pairs i j) : Same (.scope i) (.scope j)
  | file (n : Nat) : Same (.file n) (.file n)

/-- values in order -/
abbrev Vals : List Value → List Value → Prop := List.Forall₂ B.Val

def Entry (p p' : Value × Value) : Prop := B.Val p.1 p'.1 ∧ B.Val p.2 p'.2

/-- dictionaries with the same entries in order -/
def Dicts (d d' : Dict) : Prop := List.Forall₂ B.Entry d.entries d'.entries

variable {B} {v v' u u' : Value}

namespace Val

theorem eq_iff (hv : B.Val v v') (hu : B.Val u u') : v = u ↔ v' = u' := by
  cases hv with
  | nan h => cases hu with
    | nan h' => simpa using h.eq_iff h'
    | _ => simp
  | list h => cases hu with
    | list h' => simpa using h.eq_iff h'
    | _ => simp
  | dict h => cases hu with
    | dict h' => simpa using h.eq_iff h'
    | _ => simp
  | tuple h => cases hu with
    | tuple h' => simpa using h.eq_iff h'
    | _ => simp
  | function h => cases hu with
    | function h' => simpa using h.eq_iff h'
    | _ => simp
  | callable h => cases hu with
    | callable h' => simpa using h.eq_iff h'
    | _ => simp
  | _ => cases hu <;> simp

theorem eq_str_iff (hv : B.Val v v') (s : String) : v = .str s ↔ v' = .str s := hv.eq_iff (.str s)

theorem numeric? (hv : B.Val v v') : v.numeric? = v'.numeric? := by cases hv <;> rfl

theorem int? (hv : B.Val v v') : v.int? = v'.int? := by cases hv <;> rfl

theorem typeName (hv : B.Val v v') : v.typeName = v'.typeName := by cases hv <;> rfl

theorem kindName (hv : B.Val v v') : v.kindName = v'.kindName := by cases hv <;> rfl

theorem isCallable (hv : B.Val v v') : v.isCallable = v'.isCallable := by cases hv <;> rfl

theorem sameKey (hv : B.Val v v') (hu : B.Val u u') : v.sameKey u = v'.sameKey u' := by
  unfold Value.sameKey
  rw [hv.numeric?, hu.numeric?]
  simp only [hv.eq_iff hu]

end Val

/-! ## dictionaries -/

namespace Dicts

variable {d d' : Dict}

theorem empty : B.Dicts .empty .empty := .nil

theorem size_eq (h : B.Dicts d d') : d.size = d'.size := h.length_eq

theorem keys (h : B.Dicts d d') : B.Vals d.keys d'.keys := by
  refine List.forall₂_map_left_iff.mpr (List.forall₂_map_right_iff.mpr ?_)
  exact h.imp fun _ _ he => he.1

theorem values (h : B.Dicts d d') : B.Vals d.values d'.values := by
  refine List.forall₂_map_left_iff.mpr (List.forall₂_map_right_iff.mpr ?_)
  exact h.imp fun _ _ he => he.2

theorem find? (h : B.Dicts d d') (hk : B.Val v v') : Option.Rel B.Val (d.find? v) (d'.find? v') := by
  obtain ⟨es⟩ := d
  obtain ⟨es'⟩ := d'
  replace h : List.Forall₂ B.Entry es es' := h
  show Option.Rel B.Val (Dict.findIn v es) (Dict.findIn v' es')
  induction h with
  | nil => exact .none
  | cons he hes ih =>
    rw [Dict.findIn, Dict.findIn, he.1.sameKey hk]
    split
    · exact .some he.2
    · exact ih

theorem get? (h : B.Dicts d d') (name : String) : Option.Rel B.Val (d.get? name) (d'.get? name) :=
  h.find? (.str name)

theorem insert (h : B.Dicts d d') (hk : B.Val v v') (hu : B.Val u u') :
    B.Dicts (d.insert v u) (d'.insert v' u') := by
  obtain ⟨es⟩ := d
  obtain ⟨es'⟩ := d'
  replace h : List.Forall₂ B.Entry es es' := h
  show List.Forall₂ B.Entry (Dict.insertIn v u es) (Dict.insertIn v' u' es')
  induction h with
  | nil => exact .cons ⟨hk, hu⟩ .nil
  | cons he hes ih =>
    rw [Dict.insertIn, Dict.insertIn, he.1.sameKey hk]
    split
    · exact .cons ⟨he.1, hu⟩ hes
    · exact .cons he ih

theorem erase (h : B.Dicts d d') (hk : B.Val v v') : B.Dicts (d.erase v) (d'.erase v') := by
  obtain ⟨es⟩ := d
  obtain ⟨es'⟩ := d'
  replace h : List.Forall₂ B.Entry es es' := h
  show List.Forall₂ B.Entry (Dict.eraseIn v es) (Dict.eraseIn v' es')
  induction h with
  | nil => exact .nil
  | cons he hes ih =>
    rw [Dict.eraseIn, Dict.eraseIn, he.1.sameKey hk]
    split
    · exact hes
    · exact .cons he ih

theorem update {e e' : Dict} (h : B.Dicts d d') (he : B.Dicts e e') :
    B.Dicts (d.update e) (d'.update e') := by
  obtain ⟨es⟩ := e
  obtain ⟨es'⟩ := e'
  replace he : List.Forall₂ B.Entry es es' := he
  unfold Dict.update
  induction he generalizing d d' with
  | nil => exact h
  | cons he hes ih => exact ih (h.insert he.1 he.2)

end Dicts

end Bond

end BraceScript
