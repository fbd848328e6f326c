import BraceScript.Console
import BraceScript.Proofs.Simulation.Machine

/-!
# States to go on from

Where two runs have come to can be taken for a start: the cells that stand for each other are then among
those at the start. Two states that a program can start from stand for each other if they have the same
arguments, whatever cells there are besides.

* `Pairing.exists_ofList`   the pairs of a list, as a pairing
* `Bond.Refines`     pairs that are pairs of another bond
* `Match.reset`      states that stand for each other do so after a reset
* `World.Fresh`      a state that a program can start from
* `World.Fresh.bond`       such states stand for each other
-/

namespace BraceScript

/-! ## pairs of cells -/

namespace Pairing

/-- the pairs of a list, among given numbers of cells -/
theorem exists_ofList (ps : List (Nat × Nat)) (left right : Nat) (hl : ∀ p ∈ ps, p.1 < left)
    (hr : ∀ p ∈ ps, p.2 < right) (hn : (ps.map Prod.fst).Nodup) (hn' : (ps.map Prod.snd).Nodup) :
    ∃ q : Pairing, q.left = left ∧ q.right = right ∧ ∀ {i j : Nat}, q.old i j ↔ (i, j) ∈ ps := by
  refine ⟨⟨fun i j => (i, j) ∈ ps, left, right, hl _, hr _, fun h h' => ?_, fun h h' => ?_⟩, rfl, rfl, Iff.rfl⟩
  · exact congrArg Prod.fst (List.inj_on_of_nodup_map hn' h h' rfl)
  · exact congrArg Prod.snd (List.inj_on_of_nodup_map hn h h' rfl)

/-- one pair, among given numbers of cells -/
theorem exists_only {i j left right : Nat} (hi : i < left) (hj : j < right) :
    ∃ q : Pairing, q.left = left ∧ q.right = right ∧ ∀ {i' j' : Nat}, q.old i' j' ↔ i' = i ∧ j' = j := by
  obtain ⟨q, hl, hr, hq⟩ := exists_ofList [(i, j)] left right (List.forall_mem_singleton.mpr hi)
    (List.forall_mem_singleton.mpr hj) (List.nodup_singleton i) (List.nodup_singleton j)
  refine ⟨q, hl, hr, fun {i' j'} => ?_⟩
  rw [hq, List.mem_singleton, Prod.mk.injEq]

/-- no pair, among given numbers of cells -/
theorem exists_none (left right : Nat) :
    ∃ q : Pairing, q.left = left ∧ q.right = right ∧ ∀ {i j : Nat}, ¬ q.old i j := by
  obtain ⟨q, hl, hr, hq⟩ := exists_ofList [] left right (List.forall_mem_nil _) (List.forall_mem_nil _)
    List.nodup_nil List.nodup_nil
  exact ⟨q, hl, hr, fun h => List.not_mem_nil (hq.mp h)⟩

theorem Cells.begin {α : Type} {q : Pairing} {R : α → α → Prop} {a a' : Array α} (hl : q.left = a.size)
    (hr : q.right = a'.size) (h : ∀ {i j : Nat}, q.old i j → Option.Rel R a[i]? a'[j]?) :
    q.Cells R a a' a a' where
  size := ⟨0, hl.symm, hr.symm⟩
  rel {i j} hp := by
    cases hp with
    | old ho => exact h ho
    | new k =>
      rw [Array.getElem?_eq_none (by omega), Array.getElem?_eq_none (by omega)]
      exact .none
  kept _ _ _ := rfl
  kept' _ _ _ := rfl

/-- cells that stand for each other, as a pairing of more cells at the start -/
theorem exists_rebase (p : Pairing) (k : Nat) : ∃ q : Pairing,
    q.left = p.left + k ∧ q.right = p.right + k ∧ ∀ {i j : Nat}, q.Pairs i j ↔ p.Pairs i j := by
  have hlt {i j : Nat} (h : p.Pairs i j) : i < p.left + k ↔ j < p.right + k := by
    cases h with
    | old h =>
      have h1 := p.left_lt h
      have h2 := p.right_lt h
      omega
    | new n => omega
  refine ⟨⟨fun i j => p.Pairs i j ∧ i < p.left + k, p.left + k, p.right + k, And.right,
    fun h => (hlt h.1).mp h.2, fun h h' => (h.1.eq_iff h'.1).mpr rfl, fun h h' => (h.1.eq_iff h'.1).mp rfl⟩,
    rfl, rfl, fun {i j} => ⟨fun h => ?_, fun h => ?_⟩⟩
  · cases h with
    | old h => exact h.1
    | new n =>
      rw [Nat.add_assoc, Nat.add_assoc]
      exact .new (k + n)
  · by_cases hi : i < p.left + k
    · exact .old ⟨h, hi⟩
    · cases h with
      | old h => exact absurd (p.left_lt h) (by omega)
      | new n =>
        obtain ⟨n, rfl⟩ : ∃ n', n = k + n' := ⟨n - k, by omega⟩
        rw [← Nat.add_assoc, ← Nat.add_assoc]
        exact .new n

theorem Cells.restart {α : Type} {p q : Pairing} {R S : α → α → Prop} {start start' a a' : Array α}
    (h : p.Cells R start start' a a') (hq : ∀ {i j : Nat}, q.Pairs i j → p.Pairs i j) (hl : q.left = a.size)
    (hr : q.right = a'.size) (hS : ∀ {x x'}, R x x' → S x x') : q.Cells S a a' a a' :=
  .begin hl hr fun ho => Bond.rel_elim (h.rel (hq (.old ho))) .none fun hx => .some (hS hx)

end Pairing

namespace Bond

/-! ## more pairs -/

/-- pairs that are pairs of another bond -/
structure Refines (B C : Bond) : Prop where
  lists {i j : Nat} : B.lists.Pairs i j → C.lists.Pairs i j
  dicts {i j : Nat} : B.dicts.Pairs i j → C.dicts.Pairs i j
  tuples {i j : Nat} : B.tuples.Pairs i j → C.tuples.Pairs i j
  functions {i j : Nat} : B.functions.Pairs i j → C.functions.Pairs i j
  callables {i j : Nat} : B.callables.Pairs i j → C.callables.Pairs i j
  scopes {i j : Nat} : B.scopes.Pairs i j → C.scopes.Pairs i j
  nans {i j : Nat} : B.nans.Pairs i j → C.nans.Pairs i j

namespace Refines

variable {B C : Bond} (h : B.Refines C)
include h

theorem val {v v' : Value} (hv : B.Val v v') : C.Val v v' := by
  cases hv with
  | null => exact .null
  | bool b => exact .bool b
  | int n => exact .int n
  | float x => exact .float x
  | nan hp => exact .nan (h.nans hp)
  | str s => exact .str s
  | list hp => exact .list (h.lists hp)
  | dict hp => exact .dict (h.dicts hp)
  | tuple hp => exact .tuple (h.tuples hp)
  | function hp => exact .function (h.functions hp)
  | callable hp => exact .callable (h.callables hp)
  | builtin b => exact .builtin b
  | file cell => exact .file cell

theorem vals {vs vs' : List Value} (hv : B.Vals vs vs') : C.Vals vs vs' := hv.imp fun _ _ => h.val

theorem dict {d d' : Dict} (hd : B.Dicts d d') : C.Dicts d d' :=
  List.Forall₂.imp (fun _ _ he => ⟨h.val he.1, h.val he.2⟩) hd

theorem tree {t t' : Node} (ht : B.Tree t t') : C.Tree t t' := by
  cases ht with
  | same hc => exact .same hc
  | quoted hv => exact .quoted (h.val hv)

theorem parameter {p p' : Param Node} (hp : B.Parameter p p') : C.Parameter p p' := by
  cases hp with
  | receiver => exact .receiver
  | plain name he =>
    refine .plain name ?_
    cases he with
    | none => exact .none
    | some ht => exact .some (h.tree ht)
  | rest name => exact .rest name
  | keywords name => exact .keywords name

theorem function {c c' : Closure} (hc : B.Function c c') : C.Function c c' :=
  ⟨hc.params.imp fun _ _ => h.parameter, hc.body.imp fun _ _ => h.tree, h.scopes hc.scope⟩

theorem target {c c' : Callable} (hc : B.Target c c') : C.Target c c' := by
  cases hc with
  | constructor name qualified included hf => exact .constructor name qualified included hf
  | method hf hv => exact .method (h.functions hf) (h.val hv)
  | textMethod m s => exact .textMethod m s
  | listMethod m hp => exact .listMethod m (h.lists hp)
  | fileMethod m hv => exact .fileMethod m (h.val hv)

theorem vars (hn : ∀ name, ¬ B.foreign name) {s s' : Scope} (hs : B.Vars s s') : C.Vars s s' := by
  have hrel {o o' : Option Value} (hr : Option.Rel B.Val o o') : Option.Rel C.Val o o' :=
    rel_elim hr .none fun hv => .some (h.val hv)
  refine ⟨hs.distinct, hs.distinct', fun name => Or.inl ?_, hrel hs.unnamed⟩
  rcases hs.find name with hr | ⟨hf, -⟩
  · exact hrel hr
  · exact absurd hf (hn name)

end Refines

/-! ## scopes with the same names -/

theorem Vars.of_tables {B : Bond} {s s' : Scope} (h : Tables B.Val s.vars s'.vars) (hd : s.Distinct)
    (hu : Option.Rel B.Val s.unnamed s'.unnamed) : B.Vars s s' where
  distinct := hd
  distinct' := by
    unfold Scope.Distinct
    rw [← h.keys]
    exact hd
  find name := Or.inl (h.lookup name)
  unnamed := hu

theorem distinct_initialScope (count arguments : Nat) : (World.initialScope count arguments).Distinct := by
  have hnames : (World.initialScope count arguments).vars.map Prod.fst =
      (World.initialScope 0 0).vars.map Prod.fst := rfl
  unfold Scope.Distinct
  rw [hnames]
  decide +kernel

theorem vars_initialScope {B : Bond} (count : Nat) {i j : Nat} (h : B.lists.Pairs i j) :
    B.Vars (World.initialScope count i) (World.initialScope count j) := by
  refine .of_tables ?_ (distinct_initialScope count i) .none
  refine List.rel_append (List.forall₂_same.mpr fun p hp => ?_) ?_
  · obtain ⟨b, -, rfl⟩ := List.mem_map.mp hp
    exact ⟨rfl, .builtin b⟩
  · exact .cons ⟨rfl, .bool true⟩ (.cons ⟨rfl, .bool false⟩ (.cons ⟨rfl, .null⟩
      (.cons ⟨rfl, .int count⟩ (.cons ⟨rfl, .list h⟩ .nil))))

/-! ## starting over -/

/-- a bond of runs that are not stopped, without names that need care -/
structure Plain (B : Bond) : Prop where
  names (name : String) : ¬ B.foreign name
  free (name : String) : ¬ B.pinned name
  runs (u : World) : ¬ B.stops u
  room : B.start.arguments < B.lists.left
  base : B.base = []
  base' : B.base' = []

theorem Plain.active {B : Bond} (hB : B.Plain) : B.Active [] [] := ⟨[], [], .nil, hB.base.symm, hB.base'.symm⟩

/-- a bond of runs that are not stopped, with given pairs, from given states -/
abbrev plainBond (lists dicts tuples functions callables scopes nans : Pairing) (start start' : World) : Bond :=
  { lists, dicts, tuples, functions, callables, scopes, nans, start, start'
    foreign := fun _ => False
    inert := fun _ => False
    inert' := fun _ => False
    stops := fun _ => False }

theorem sound_plainBond {lists dicts tuples functions callables scopes nans : Pairing} {start start' : World}
    (ht : tuples.Pairs 0 0) (hg : scopes.Pairs start.globals start'.globals)
    (ha : lists.Pairs start.arguments start'.arguments) :
    (plainBond lists dicts tuples functions callables scopes nans start start').Sound where
  emptyTuple := ht
  globals := hg
  arguments := ha
  frozen := False.elim
  frozen' := False.elim
  next := fun h => h.elim
  next' := fun h => h.elim
  own := fun h => h.elim
  own' := fun h => h.elim
  base := fun h => absurd h List.not_mem_nil
  base' := fun h => absurd h List.not_mem_nil
  pinned := False.elim

theorem active_plainBond {lists dicts tuples functions callables scopes nans : Pairing} {start start' : World} :
    (plainBond lists dicts tuples functions callables scopes nans start start').Active [] [] :=
  ⟨[], [], .nil, rfl, rfl⟩

/-- **States that stand for each other do so after a reset.** -/
theorem Match.reset {B : Bond} {w w' : World} (hw : B.Match w w') (hB : B.Plain) :
    ∃ C : Bond, C.Plain ∧ C.start = w.reset ∧ C.start' = w'.reset ∧ C.Match w.reset w'.reset := by
  have hcount : (w.list w.arguments).size = (w'.list w'.arguments).size :=
    (hw.list hw.pairs_arguments).length_eq
  have hscopes := hw.scopes.push (vars_initialScope (w.list w.arguments).size hw.pairs_arguments)
  obtain ⟨k1, hl1, hr1⟩ := hw.lists.size
  obtain ⟨k2, hl2, hr2⟩ := hw.dicts.size
  obtain ⟨k3, hl3, hr3⟩ := hw.tuples.size
  obtain ⟨k4, hl4, hr4⟩ := hw.functions.size
  obtain ⟨k5, hl5, hr5⟩ := hw.callables.size
  obtain ⟨k6, hl6, hr6⟩ := hscopes.size
  obtain ⟨k7, hl7, hr7⟩ := hw.nans
  obtain ⟨q1, ql1, qr1, hq1⟩ := B.lists.exists_rebase k1
  obtain ⟨q2, ql2, qr2, hq2⟩ := B.dicts.exists_rebase k2
  obtain ⟨q3, ql3, qr3, hq3⟩ := B.tuples.exists_rebase k3
  obtain ⟨q4, ql4, qr4, hq4⟩ := B.functions.exists_rebase k4
  obtain ⟨q5, ql5, qr5, hq5⟩ := B.callables.exists_rebase k5
  obtain ⟨q6, ql6, qr6, hq6⟩ := B.scopes.exists_rebase k6
  obtain ⟨q7, ql7, qr7, hq7⟩ := B.nans.exists_rebase k7
  have hargs : w.arguments < q1.left := by
    have hroom := hB.room
    rw [hw.arguments]
    omega
  refine ⟨plainBond q1 q2 q3 q4 q5 q6 q7 w.reset w'.reset,
    ⟨fun _ => id, fun _ => id, fun _ => id, hargs, rfl, rfl⟩, rfl, rfl, ?_⟩
  have hC : B.Refines (plainBond q1 q2 q3 q4 q5 q6 q7 w.reset w'.reset) :=
    ⟨hq1.mpr, hq2.mpr, hq3.mpr, hq4.mpr, hq5.mpr, hq6.mpr, hq7.mpr⟩
  have hsame : w'.reset.scopes = w'.scopes.push (World.initialScope (w.list w.arguments).size w'.arguments) := by
    rw [hcount]
    rfl
  exact
    { sound := sound_plainBond (hq3.mpr hw.sound.emptyTuple) (hq6.mpr hw.scopes.pairs_size)
        (hq1.mpr hw.pairs_arguments)
      lists := hw.lists.restart hq1.mp (ql1.trans hl1.symm) (qr1.trans hr1.symm) hC.vals
      dicts := hw.dicts.restart hq2.mp (ql2.trans hl2.symm) (qr2.trans hr2.symm) hC.dict
      tuples := hw.tuples.restart hq3.mp (ql3.trans hl3.symm) (qr3.trans hr3.symm) hC.vals
      emptyTuple := hw.emptyTuple
      functions := hw.functions.restart hq4.mp (ql4.trans hl4.symm) (qr4.trans hr4.symm) hC.function
      code := fun _ _ => rfl
      code' := fun _ _ => rfl
      callables := hw.callables.restart hq5.mp (ql5.trans hl5.symm) (qr5.trans hr5.symm) hC.target
      scopes := by
        show q6.Cells _ w.reset.scopes w'.reset.scopes w.reset.scopes w'.reset.scopes
        rw [hsame]
        exact hscopes.restart hq6.mp (ql6.trans hl6.symm) (qr6.trans hr6.symm) (hC.vars hB.names)
      handles := hw.handles
      nans := ⟨0, hl7.trans ql7.symm, hr7.trans qr7.symm⟩
      classes := .nil
      globals := rfl
      globals' := rfl
      active := active_plainBond
      pinned := False.elim
      arguments := rfl
      arguments' := rfl
      moduleName := hw.moduleName
      named := rfl
      disk := hw.disk
      input := hw.input
      output := ⟨"", (String.append_empty).symm, (String.append_empty).symm⟩ }

end Bond

/-! ## states to start from -/

namespace World

/-- a state that a program can start from, with given arguments -/
structure Fresh (w : World) (args : List String) : Prop where
  arguments : w.lists[w.arguments]? = some (args.map Value.str).toArray
  emptyTuple : w.tuples[0]? = some []
  globals : w.scopes[w.globals]? = some (initialScope args.length w.arguments)
  classes : w.classes = .empty
  active : w.active = []

theorem fresh_start (args input : List String) (disk : Disk) (moduleName : String) :
    (start args input disk moduleName).Fresh args := ⟨rfl, rfl, rfl, rfl, rfl⟩

theorem Fresh.say {w : World} {args : List String} (h : w.Fresh args) (s : String) : (w.say s).Fresh args :=
  ⟨h.arguments, h.emptyTuple, h.globals, h.classes, h.active⟩

/-- **States that a program can start from stand for each other** if they have the same arguments. -/
theorem Fresh.bond {w w' : World} {args : List String} (h : w.Fresh args) (h' : w'.Fresh args)
    (hh : w.handles = w'.handles) (hm : w.moduleName = w'.moduleName) (hd : w.disk = w'.disk)
    (hi : w.input = w'.input) :
    ∃ B : Bond, B.Plain ∧ B.start = w ∧ B.start' = w' ∧ B.Match w w' := by
  have hsize {α : Type} {a : Array α} {i : Nat} {x : α} (h : a[i]? = some x) : i < a.size :=
    (Array.getElem?_eq_some_iff.mp h).1
  have hargs := hsize h.arguments
  obtain ⟨q1, ql1, qr1, hq1⟩ := Pairing.exists_only hargs (hsize h'.arguments)
  obtain ⟨q2, ql2, qr2, hq2⟩ := Pairing.exists_none w.dicts.size w'.dicts.size
  obtain ⟨q3, ql3, qr3, hq3⟩ := Pairing.exists_only (hsize h.emptyTuple) (hsize h'.emptyTuple)
  obtain ⟨q4, ql4, qr4, hq4⟩ := Pairing.exists_none w.functions.size w'.functions.size
  obtain ⟨q5, ql5, qr5, hq5⟩ := Pairing.exists_none w.callables.size w'.callables.size
  obtain ⟨q6, ql6, qr6, hq6⟩ := Pairing.exists_only (hsize h.globals) (hsize h'.globals)
  obtain ⟨q7, ql7, qr7, hq7⟩ := Pairing.exists_none w.nans w'.nans
  rw [← ql1] at hargs
  refine ⟨Bond.plainBond q1 q2 q3 q4 q5 q6 q7 w w', ⟨fun _ => id, fun _ => id, fun _ => id, hargs, rfl, rfl⟩,
    rfl, rfl, ?_⟩
  exact
    { sound := Bond.sound_plainBond (.old (hq3.mpr ⟨rfl, rfl⟩)) (.old (hq6.mpr ⟨rfl, rfl⟩))
        (.old (hq1.mpr ⟨rfl, rfl⟩))
      lists := .begin ql1 qr1 fun ho => by
        obtain ⟨rfl, rfl⟩ := hq1.mp ho
        rw [h.arguments, h'.arguments]
        refine .some (List.forall₂_same.mpr fun v hv => ?_)
        obtain ⟨text, -, rfl⟩ := List.mem_map.mp hv
        exact .str text
      dicts := .begin ql2 qr2 fun ho => absurd ho hq2
      tuples := .begin ql3 qr3 fun ho => by
        obtain ⟨rfl, rfl⟩ := hq3.mp ho
        rw [h.emptyTuple, h'.emptyTuple]
        exact .some .nil
      emptyTuple := h.emptyTuple
      functions := .begin ql4 qr4 fun ho => absurd ho hq4
      code := fun _ _ => rfl
      code' := fun _ _ => rfl
      callables := .begin ql5 qr5 fun ho => absurd ho hq5
      scopes := .begin ql6 qr6 fun ho => by
        obtain ⟨rfl, rfl⟩ := hq6.mp ho
        rw [h.globals, h'.globals]
        exact .some (Bond.vars_initialScope args.length (.old (hq1.mpr ⟨rfl, rfl⟩)))
      handles := hh
      nans := ⟨0, ql7.symm, qr7.symm⟩
      classes := by
        rw [h.classes, h'.classes]
        exact .nil
      globals := rfl
      globals' := rfl
      active := by
        rw [h.active, h'.active]
        exact Bond.active_plainBond
      pinned := False.elim
      arguments := rfl
      arguments' := rfl
      moduleName := hm
      named := rfl
      disk := hd
      input := hi
      output := ⟨"", String.append_empty.symm, String.append_empty.symm⟩ }

end World

end BraceScript
