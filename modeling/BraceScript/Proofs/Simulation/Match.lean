import BraceScript.Proofs.Library.Inclusion
import BraceScript.Proofs.Parse.ClosedTree
import BraceScript.Proofs.Simulation.Pairing

/-!
# States that stand for each other

Two states match if the cells that stand for each other hold the same, up to the cells that they name, and
all else is equal. The text written so far may differ, but not what was written since the start.

Some names may be bound to values that do not stand for each other, as long as they are bound to what they
were bound to at the start. The cells that are reached through such values only are inert: they lead nowhere
but to the global variables, the command line arguments and what the runs hold while they last. What one run
holds, the other may have in a variable that it does not bind anew.

* `Bond.Tree`, `Bond.Function`, `Bond.Class`, ...   trees, functions and classes that stand for each other
* `Bond.Vars`     scopes that stand for each other
* `Bond.Match`    states that stand for each other
* `Match.list`, ...       what cells hold that stand for each other
* `Match.pushList`, ...   changes that keep states matched
-/

namespace BraceScript

/-! ## tables -/

/-- tables with the same names in order, and related entries -/
abbrev Tables {α β : Type} (R : α → β → Prop) : List (String × α) → List (String × β) → Prop :=
  List.Forall₂ fun p p' => p.1 = p'.1 ∧ R p.2 p'.2

namespace Tables

variable {α β : Type} {R : α → β → Prop} {xs : List (String × α)} {ys : List (String × β)}

theorem lookup (h : Tables R xs ys) (name : String) : Option.Rel R (xs.lookup name) (ys.lookup name) := by
  induction h with
  | nil => exact .none
  | @cons p p' xs ys hp hs ih =>
    obtain ⟨k, x⟩ := p
    obtain ⟨k', y⟩ := p'
    obtain ⟨rfl, hr⟩ := hp
    rw [lookup_cons_eq, lookup_cons_eq]
    split
    · exact .some hr
    · exact ih

theorem putAt (h : Tables R xs ys) (name : String) {x : α} {y : β} (hx : R x y) :
    Tables R (putAt name x xs) (putAt name y ys) := by
  induction h with
  | nil => exact .cons ⟨rfl, hx⟩ .nil
  | @cons p p' xs ys hp hs ih =>
    obtain ⟨k, u⟩ := p
    obtain ⟨k', u'⟩ := p'
    obtain ⟨rfl, hr⟩ := hp
    rw [BraceScript.putAt, BraceScript.putAt]
    split
    · exact .cons ⟨rfl, hx⟩ hs
    · exact .cons ⟨rfl, hr⟩ ih

theorem keys (h : Tables R xs ys) : xs.map Prod.fst = ys.map Prod.fst := by
  induction h with
  | nil => rfl
  | cons hp hs ih => rw [List.map_cons, List.map_cons, hp.1, ih]

end Tables

namespace Bond

variable (B : Bond)

/-! ## trees and code -/

/-- trees that stand for each other: the same tree without values, or values that are read as trees -/
inductive Tree : Node → Node → Prop
  | same {t : Node} (h : t.Closed) : Tree t t
  | quoted {v v' : Value} (h : B.Val v v') : Tree (.quoted v) (.quoted v')

abbrev Trees : List Node → List Node → Prop := List.Forall₂ B.Tree

/-- parameters that stand for each other -/
inductive Parameter : Param Node → Param Node → Prop
  | receiver : Parameter .receiver .receiver
  | plain (name : String) {e e' : Option Node} (h : Option.Rel B.Tree e e') :
    Parameter (.plain name e) (.plain name e')
  | rest (name : String) : Parameter (.rest name) (.rest name)
  | keywords (name : String) : Parameter (.keywords name) (.keywords name)

abbrev Parameters : List (Param Node) → List (Param Node) → Prop := List.Forall₂ B.Parameter

/-- functions that stand for each other -/
structure Function (c c' : Closure) : Prop where
  params : B.Parameters c.params c'.params
  body : B.Trees c.body c'.body
  scope : B.scopes.Pairs c.scope c'.scope

/-- constructors and bound methods that stand for each other -/
inductive Target : Callable → Callable → Prop
  | constructor (name : String) {fields : List (String × Option Node)} (qualified : List (String × String))
    (included : Bool) (h : ∀ t ∈ fieldDefaults fields, t.Closed) :
    Target (.constructor name fields qualified included) (.constructor name fields qualified included)
  | method {i j : Nat} {v v' : Value} (hf : B.functions.Pairs i j) (hv : B.Val v v') :
    Target (.method i v) (.method j v')
  | textMethod (m : TextMethod) (s : String) : Target (.textMethod m s) (.textMethod m s)
  | listMethod (m : ListMethod) {i j : Nat} (h : B.lists.Pairs i j) : Target (.listMethod m i) (.listMethod m j)
  | fileMethod (m : FileMethod) {v v' : Value} (h : B.Val v v') : Target (.fileMethod m v) (.fileMethod m v')

/-- classes that stand for each other -/
structure Class (c c' : ClassInfo) : Prop where
  fields : c.fields = c'.fields
  parents : c.parents = c'.parents
  methods : Tables B.functions.Pairs c.methods c'.methods

/-- class tables that stand for each other -/
def Classes (t t' : ClassTable) : Prop := Tables B.Class t.classes t'.classes

/-! ## scopes -/

/-- what a name is bound to at the start -/
def own (name : String) : Option Value := (B.start.scope B.home).find? name

/-- what a name is bound to at the start of the second run -/
def own' (name : String) : Option Value := (B.start'.scope B.home').find? name

/-- scopes that stand for each other: a name is bound to values that do, or it is a foreign name and bound as
it was at the start -/
structure Vars (s s' : Scope) : Prop where
  distinct : s.Distinct
  distinct' : s'.Distinct
  find (name : String) : Option.Rel B.Val (s.find? name) (s'.find? name) ∨
    B.foreign name ∧ s.find? name = B.own name ∧ s'.find? name = B.own' name
  unnamed : Option.Rel B.Val s.unnamed s'.unnamed

variable {B}

theorem Vars.insert {s s' : Scope} (h : B.Vars s s') (name : String) {v v' : Value} (hv : B.Val v v') :
    B.Vars (s.insert name v) (s'.insert name v') where
  distinct := h.distinct.insert name v
  distinct' := h.distinct'.insert name v'
  find other := by
    rw [Scope.find?_insert, Scope.find?_insert]
    split
    · exact Or.inl (.some hv)
    · exact h.find other
  unnamed := by
    rw [Scope.unnamed_insert, Scope.unnamed_insert]
    exact h.unnamed

theorem Vars.default : B.Vars default default :=
  ⟨List.nodup_nil, List.nodup_nil, fun _ => Or.inl .none, .none⟩

/-! ## states -/

variable (B)

/-- cells that were there at the start and are not changed -/
def Frozen : Cell → Prop
  | .dict i => i < B.dicts.left ∧ ∀ j, ¬ B.dicts.old i j
  | .callable i => i < B.callables.left ∧ ∀ j, ¬ B.callables.old i j
  | .function i => i < B.functions.left
  | _ => False

/-- cells that were there at the start of the second run and are not changed -/
def Frozen' : Cell → Prop
  | .dict j => j < B.dicts.right ∧ ∀ i, ¬ B.dicts.old i j
  | .callable j => j < B.callables.right ∧ ∀ i, ¬ B.callables.old i j
  | .function j => j < B.functions.right
  | _ => False

/-- cells that lead nowhere but to global variables, command line arguments and what the first run holds -/
def Leads (c : Cell) : Prop :=
  B.inert c ∨ c = .scope B.start.globals ∨ c = .list B.start.arguments ∨ c ∈ B.base

/-- cells that lead nowhere but to global variables, command line arguments and what the first run holds, in the
second run -/
def Leads' (c : Cell) : Prop :=
  B.inert' c ∨ c = .scope B.start'.globals ∨ c = .list B.start'.arguments ∨ ∃ b ∈ B.base, B.Same b c

/-- a cell that the second run holds, or has in a variable that it does not bind anew -/
def Kept' (c : Cell) : Prop :=
  c ∈ B.base' ∨ ∃ name v, B.pinned name ∧ B.own' name = some v ∧ v.cell? = some c

/-- what two runs hold: cells that stand for each other, and what they hold while they last -/
def Active (cs cs' : List Cell) : Prop :=
  ∃ ds ds', List.Forall₂ B.Same ds ds' ∧ cs = ds ++ B.base ∧ cs' = ds' ++ B.base'

/-- what a link has to say about the states at the start -/
structure Sound : Prop where
  emptyTuple : B.tuples.Pairs 0 0
  globals : B.scopes.Pairs B.start.globals B.start'.globals
  arguments : B.lists.Pairs B.start.arguments B.start'.arguments
  frozen {c : Cell} : B.inert c → B.Frozen c
  frozen' {c : Cell} : B.inert' c → B.Frozen' c
  next {c d : Cell} : B.inert c → d ∈ B.start.next c → B.Leads d
  next' {c d : Cell} : B.inert' c → d ∈ B.start'.next c → B.Leads' d
  own {name : String} {v : Value} {c : Cell} : B.foreign name → B.own name = some v → v.cell? = some c →
    B.Leads c
  own' {name : String} {v : Value} {c : Cell} : B.foreign name → B.own' name = some v → v.cell? = some c →
    B.Leads' c
  base {c : Cell} : c ∈ B.base → ∃ c', B.Kept' c' ∧ B.Same c c'
  base' {c' : Cell} : c' ∈ B.base' → ∃ c ∈ B.base, B.Same c c'
  pinned {name : String} : B.pinned name → B.home' < B.scopes.right ∧
    (B.home' = B.start'.globals ∨ .scope B.home' ∈ B.base')

/-- states that stand for each other -/
structure Match (w w' : World) : Prop where
  sound : B.Sound
  lists : B.lists.Cells (fun a a' => B.Vals a.toList a'.toList) B.start.lists B.start'.lists w.lists w'.lists
  dicts : B.dicts.Cells B.Dicts B.start.dicts B.start'.dicts w.dicts w'.dicts
  tuples : B.tuples.Cells B.Vals B.start.tuples B.start'.tuples w.tuples w'.tuples
  emptyTuple : w.tuples[0]? = some []
  functions : B.functions.Cells B.Function B.start.functions B.start'.functions w.functions w'.functions
  code (i : Nat) : i < B.functions.left → w.functions[i]? = B.start.functions[i]?
  code' (j : Nat) : j < B.functions.right → w'.functions[j]? = B.start'.functions[j]?
  callables : B.callables.Cells B.Target B.start.callables B.start'.callables w.callables w'.callables
  scopes : B.scopes.Cells B.Vars B.start.scopes B.start'.scopes w.scopes w'.scopes
  handles : w.handles = w'.handles
  nans : ∃ k, w.nans = B.nans.left + k ∧ w'.nans = B.nans.right + k
  classes : B.Classes w.classes w'.classes
  globals : w.globals = B.start.globals
  globals' : w'.globals = B.start'.globals
  active : B.Active w.active w'.active
  pinned {name : String} : B.pinned name → (w'.scope B.home').find? name = B.own' name
  arguments : w.arguments = B.start.arguments
  arguments' : w'.arguments = B.start'.arguments
  moduleName : w.moduleName = w'.moduleName
  named : w.moduleName = B.start.moduleName
  disk : w.disk = w'.disk
  input : w.input = w'.input
  output : ∃ text, w.output = B.start.output ++ text ∧ w'.output = B.start'.output ++ text

variable {B} {w w' : World} {i j : Nat}

theorem Active.cons {cs cs' : List Cell} (h : B.Active cs cs') {c c' : Cell} (hc : B.Same c c') :
    B.Active (c :: cs) (c' :: cs') := by
  obtain ⟨ds, ds', hds, rfl, rfl⟩ := h
  exact ⟨c :: ds, c' :: ds', .cons hc hds, rfl, rfl⟩

namespace Match

variable (h : B.Match w w')
include h

/-! ## what cells hold -/

theorem list (hp : B.lists.Pairs i j) : B.Vals (w.list i).toList (w'.list j).toList :=
  h.lists.getD hp .nil

theorem dict (hp : B.dicts.Pairs i j) : B.Dicts (w.dict i) (w'.dict j) :=
  h.dicts.getD hp .empty

theorem tuple (hp : B.tuples.Pairs i j) : B.Vals (w.tuple i) (w'.tuple j) :=
  h.tuples.getD hp .nil

theorem pairs_globals : B.scopes.Pairs w.globals w'.globals := by
  rw [h.globals, h.globals']
  exact h.sound.globals

theorem pairs_arguments : B.lists.Pairs w.arguments w'.arguments := by
  rw [h.arguments, h.arguments']
  exact h.sound.arguments

theorem function (hp : B.functions.Pairs i j) :
    B.Function (w.function i) (w'.function j) :=
  h.functions.getD hp ⟨.nil, .nil, h.pairs_globals⟩

theorem callable (hp : B.callables.Pairs i j) :
    B.Target (w.callable i) (w'.callable j) :=
  h.callables.getD hp (.constructor "" [] false (List.forall_mem_nil _))

theorem scope (hp : B.scopes.Pairs i j) : B.Vars (w.scope i) (w'.scope j) :=
  h.scopes.getD hp .default

theorem handle (cell : Nat) : w.handle cell = w'.handle cell := by
  rw [World.handle, World.handle, h.handles]

/-! ## changes -/

theorem pushList {a a' : Array Value} (ha : B.Vals a.toList a'.toList) :
    B.Match { w with lists := w.lists.push a } { w' with lists := w'.lists.push a' } :=
  { h with lists := h.lists.push ha }

theorem pushDict {d d' : Dict} (hd : B.Dicts d d') :
    B.Match { w with dicts := w.dicts.push d } { w' with dicts := w'.dicts.push d' } :=
  { h with dicts := h.dicts.push hd }

theorem pushTuple {vs vs' : List Value} (hv : B.Vals vs vs') :
    B.Match { w with tuples := w.tuples.push vs } { w' with tuples := w'.tuples.push vs' } :=
  { h with
    tuples := h.tuples.push hv
    emptyTuple := by
      obtain ⟨h0, -⟩ := Array.getElem?_eq_some_iff.mp h.emptyTuple
      rw [Array.getElem?_push, if_neg (Nat.ne_of_lt h0)]
      exact h.emptyTuple }

theorem pushFunction {c c' : Closure} (hc : B.Function c c') :
    B.Match { w with functions := w.functions.push c } { w' with functions := w'.functions.push c' } :=
  { h with
    functions := h.functions.push hc
    code := fun i hi => by
      obtain ⟨k, hk, -⟩ := h.functions.size
      rw [Array.getElem?_push, if_neg (by omega)]
      exact h.code i hi
    code' := fun j hj => by
      obtain ⟨k, -, hk⟩ := h.functions.size
      rw [Array.getElem?_push, if_neg (by omega)]
      exact h.code' j hj }

theorem pushCallable {c c' : Callable} (hc : B.Target c c') :
    B.Match { w with callables := w.callables.push c } { w' with callables := w'.callables.push c' } :=
  { h with callables := h.callables.push hc }

theorem pushScope {s s' : Scope} (hs : B.Vars s s') :
    B.Match { w with scopes := w.scopes.push s } { w' with scopes := w'.scopes.push s' } :=
  { h with
    scopes := h.scopes.push hs
    pinned := fun {name} hn => by
      have hlt := (h.sound.pinned hn).1
      obtain ⟨k, -, hk⟩ := h.scopes.size
      have hsame : World.scope { w' with scopes := w'.scopes.push s' } B.home' = w'.scope B.home' :=
        getD_congr (by rw [Array.getElem?_push, if_neg (by omega)]) _
      rw [hsame]
      exact h.pinned hn }

theorem pairs_nans : B.nans.Pairs w.nans w'.nans := by
  obtain ⟨k, hk, hk'⟩ := h.nans
  rw [hk, hk']
  exact .new k

theorem newNan :
    B.Match { w with nans := w.nans + 1 } { w' with nans := w'.nans + 1 } :=
  { h with
    nans := by
      obtain ⟨k, hk, hk'⟩ := h.nans
      exact ⟨k + 1, by rw [hk, Nat.add_assoc], by rw [hk', Nat.add_assoc]⟩ }

theorem setList (hp : B.lists.Pairs i j) {a a' : Array Value}
    (ha : B.Vals a.toList a'.toList) :
    B.Match { w with lists := w.lists.setIfInBounds i a } { w' with lists := w'.lists.setIfInBounds j a' } :=
  { h with lists := h.lists.setIfInBounds hp ha }

theorem modifyList (hp : B.lists.Pairs i j) {f f' : Array Value → Array Value}
    (hf : ∀ {a a' : Array Value}, B.Vals a.toList a'.toList → B.Vals (f a).toList (f' a').toList) :
    B.Match { w with lists := w.lists.modify i f } { w' with lists := w'.lists.modify j f' } :=
  { h with lists := h.lists.modify hp hf }

theorem modifyDict (hp : B.dicts.Pairs i j) {f f' : Dict → Dict}
    (hf : ∀ {d d' : Dict}, B.Dicts d d' → B.Dicts (f d) (f' d')) :
    B.Match { w with dicts := w.dicts.modify i f } { w' with dicts := w'.dicts.modify j f' } :=
  { h with dicts := h.dicts.modify hp hf }

/-- a change of a scope that leaves the pinned names alone -/
theorem modifyScopeAt (hp : B.scopes.Pairs i j) {f f' : Scope → Scope}
    (hf : ∀ {s s' : Scope}, w.scopes[i]? = some s → w'.scopes[j]? = some s' → B.Vars s s' → B.Vars (f s) (f' s'))
    (hk : ∀ {s' : Scope} {name : String}, w'.scopes[j]? = some s' → B.pinned name →
      (f' s').find? name = s'.find? name) :
    B.Match { w with scopes := w.scopes.modify i f } { w' with scopes := w'.scopes.modify j f' } :=
  { h with
    scopes := h.scopes.modifyAt hp hf
    pinned := fun {name} hn => by
      rw [← h.pinned hn, World.scope, World.scope, Array.getD_eq_getD_getElem?, Array.getD_eq_getD_getElem?,
        Array.getElem?_modify]
      split
      · rename_i he
        rw [← he]
        cases hs : w'.scopes[j]? with
        | none => rfl
        | some s' => exact hk hs hn
      · rfl }

theorem modifyScope (hp : B.scopes.Pairs i j) {f f' : Scope → Scope}
    (hf : ∀ {s s' : Scope}, B.Vars s s' → B.Vars (f s) (f' s'))
    (hk : ∀ (s' : Scope) {name : String}, B.pinned name → (f' s').find? name = s'.find? name) :
    B.Match { w with scopes := w.scopes.modify i f } { w' with scopes := w'.scopes.modify j f' } :=
  h.modifyScopeAt hp (fun _ _ hs => hf hs) fun {s'} _ _ hn => hk s' hn

theorem setClasses {t t' : ClassTable} (ht : B.Classes t t') :
    B.Match { w with classes := t } { w' with classes := t' } :=
  { h with classes := ht }

theorem setActive {cs cs' : List Cell} (hc : B.Active cs cs') :
    B.Match { w with active := cs } { w' with active := cs' } :=
  { h with active := hc }

theorem setInput (lines : List String) :
    B.Match { w with input := lines } { w' with input := lines } :=
  { h with input := rfl }

theorem setFiles {disk disk' : Disk} (hd : disk = disk') {handles handles' : Array Handle}
    (hh : handles = handles') :
    B.Match { w with disk := disk, handles := handles } { w' with disk := disk', handles := handles' } :=
  { h with disk := hd, handles := hh }

theorem write (s : String) :
    B.Match { w with output := w.output ++ s } { w' with output := w'.output ++ s } :=
  { h with
    output := by
      obtain ⟨text, ht, ht'⟩ := h.output
      exact ⟨text ++ s, by rw [ht, String.append_assoc], by rw [ht', String.append_assoc]⟩ }

end Match

end Bond

end BraceScript
