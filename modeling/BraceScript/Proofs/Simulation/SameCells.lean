import BraceScript.Proofs.Simulation.Rebase

/-!
# Runs with the same cells

Two runs from states with the same cells make the same cells, so that a cell stands for itself in both. What
stands for each other is then equal, and states that stand for each other are equal apart from the variables
of foreign names and from what the runs hold.

* `Pairing.ident`      every cell stands for itself
* `Bond.Straight`      a bond in which every cell stands for itself
* `World.SameApart`    states that are equal apart from a variable
* `World.Tidy`         what holds of the states of a program
* `Tidy.twin`          such a state stands for itself, and for one with other variables
* `Tidy.exec`          what is executed leaves a tidy state
-/

namespace BraceScript

open Exec

/-! ## cells that stand for themselves -/

namespace Pairing

/-- every cell stands for itself; there are some at the start -/
def ident (n : Nat) : Pairing where
  old i j := i = j ∧ i < n
  left := n
  right := n
  left_lt h := h.2
  right_lt h := h.1 ▸ h.2
  left_inj h h' := h.1.trans h'.1.symm
  right_inj h h' := h.1.symm.trans h'.1

theorem pairs_ident {n i j : Nat} : (ident n).Pairs i j ↔ i = j := by
  constructor
  · intro h
    cases h with
    | old h => exact h.1
    | new k => rfl
  · rintro rfl
    by_cases hi : i < n
    · exact .old ⟨rfl, hi⟩
    · obtain ⟨k, rfl⟩ := Nat.exists_eq_add_of_le (Nat.le_of_not_lt hi)
      exact .new k

variable {α : Type} {R : α → α → Prop} {a a' start start' : Array α}

theorem Cells.begin_ident (hs : a'.size = a.size) (h : ∀ i : Nat, Option.Rel R a[i]? a'[i]?) :
    (ident a.size).Cells R a a' a a' := by
  refine .begin rfl hs.symm fun {i j} ho => ?_
  obtain ⟨rfl, -⟩ := ho
  exact h i

/-- arrays whose cells hold what stands for itself -/
theorem Cells.same (h : ∀ x ∈ a, R x x) : (ident a.size).Cells R a a a a := by
  refine .begin_ident rfl fun i => ?_
  cases hx : a[i]? with
  | none => exact .none
  | some x => exact .some (h x (Array.mem_of_getElem? hx))

theorem Cells.eq {p : Pairing} (h : p.Cells R start start' a a') (hp : ∀ i, p.Pairs i i)
    (hR : ∀ {x x' : α}, R x x' → x = x') : a = a' :=
  Array.ext_getElem? fun i => Bond.rel_elim (h.rel (hp i)) rfl fun hx => congrArg some (hR hx)

/-- a cell that stands for itself holds what stands for something -/
theorem Cells.exists_rel {p : Pairing} (h : p.Cells R start start' a a') (hp : ∀ i, p.Pairs i i) {x : α}
    (hx : x ∈ a) : ∃ x', R x x' := by
  obtain ⟨i, hi⟩ := Array.mem_iff_getElem?.mp hx
  have hr := h.rel (hp i)
  rw [hi] at hr
  revert hr
  generalize a'[i]? = o
  rintro (hx | _)
  exact ⟨_, hx⟩

end Pairing

theorem Tables.eq {α : Type} {R : α → α → Prop} {xs xs' : List (String × α)} (h : Tables R xs xs')
    (hR : ∀ {a a' : α}, R a a' → a = a') : xs = xs' := by
  induction h with
  | nil => rfl
  | cons hp _ ih => rw [ih, Prod.ext hp.1 (hR hp.2)]

/-! ## states that are equal apart from a variable -/

/-- states that are equal, apart from the variables of a name and from what runs hold that have not ended -/
structure World.SameApart (name : String) (w w' : World) : Prop where
  rest : w' = { w with scopes := w'.scopes, active := w'.active }
  size : w'.scopes.size = w.scopes.size
  find (i : Nat) {other : String} : other ≠ name → (w'.scope i).find? other = (w.scope i).find? other
  unnamed (i : Nat) : (w'.scope i).unnamed = (w.scope i).unnamed

namespace Bond

/-- a bond in which every cell stands for itself -/
structure Straight (B : Bond) : Prop where
  lists {i j : Nat} : B.lists.Pairs i j ↔ i = j
  dicts {i j : Nat} : B.dicts.Pairs i j ↔ i = j
  tuples {i j : Nat} : B.tuples.Pairs i j ↔ i = j
  functions {i j : Nat} : B.functions.Pairs i j ↔ i = j
  callables {i j : Nat} : B.callables.Pairs i j ↔ i = j
  scopes {i j : Nat} : B.scopes.Pairs i j ↔ i = j
  nans {i j : Nat} : B.nans.Pairs i j ↔ i = j

namespace Straight

variable {B : Bond} (h : B.Straight)
include h

theorem val {v v' : Value} : B.Val v v' ↔ v = v' := by
  constructor
  · intro hv
    cases hv with
    | nan hp => rw [h.nans.mp hp]
    | list hp => rw [h.lists.mp hp]
    | dict hp => rw [h.dicts.mp hp]
    | tuple hp => rw [h.tuples.mp hp]
    | function hp => rw [h.functions.mp hp]
    | callable hp => rw [h.callables.mp hp]
    | _ => rfl
  · rintro rfl
    cases v with
    | null => exact .null
    | bool b => exact .bool b
    | int n => exact .int n
    | float x => exact .float x
    | nan i => exact .nan (h.nans.mpr rfl)
    | str s => exact .str s
    | list i => exact .list (h.lists.mpr rfl)
    | dict i => exact .dict (h.dicts.mpr rfl)
    | tuple i => exact .tuple (h.tuples.mpr rfl)
    | function i => exact .function (h.functions.mpr rfl)
    | callable i => exact .callable (h.callables.mpr rfl)
    | builtin b => exact .builtin b
    | file i => exact .file i

theorem same (c : Cell) : B.Same c c := by
  cases c with
  | list i => exact .list (h.lists.mpr rfl)
  | dict i => exact .dict (h.dicts.mpr rfl)
  | tuple i => exact .tuple (h.tuples.mpr rfl)
  | function i => exact .function (h.functions.mpr rfl)
  | callable i => exact .callable (h.callables.mpr rfl)
  | scope i => exact .scope (h.scopes.mpr rfl)
  | file i => exact .file i

theorem val_eq : B.Val = Eq := funext fun _ => funext fun _ => propext h.val

theorem vals {vs vs' : List Value} : B.Vals vs vs' ↔ vs = vs' := by
  rw [Vals, h.val_eq, List.forall₂_eq_eq_eq]

theorem option {o o' : Option Value} : Option.Rel B.Val o o' ↔ o = o' := by
  constructor
  · exact fun hr => rel_elim hr rfl fun hv => congrArg some (h.val.mp hv)
  · rintro rfl
    cases o with
    | none => exact .none
    | some v => exact .some (h.val.mpr rfl)

theorem dict {d d' : Dict} : B.Dicts d d' ↔ d = d' := by
  have hentry : B.Entry = Eq := by
    funext p p'
    rw [Entry, h.val_eq, Prod.ext_iff]
  rw [Dicts, hentry, List.forall₂_eq_eq_eq]
  exact ⟨congrArg Dict.mk, congrArg Dict.entries⟩

theorem tree {t t' : Node} (ht : B.Tree t t') : t = t' := by
  cases ht with
  | same hc => rfl
  | quoted hv => rw [h.val.mp hv]

theorem trees {ts ts' : List Node} (ht : B.Trees ts ts') : ts = ts' := by
  induction ht with
  | nil => rfl
  | cons hx _ ih => rw [h.tree hx, ih]

theorem parameters {ps ps' : List (Param Node)} (hp : B.Parameters ps ps') : ps = ps' := by
  induction hp with
  | nil => rfl
  | cons hx _ ih =>
    rw [ih]
    cases hx with
    | plain name he =>
      cases he with
      | none => rfl
      | some ht => rw [h.tree ht]
    | _ => rfl

theorem function {c c' : Closure} (hc : B.Function c c') : c = c' := by
  obtain ⟨params, body, scope⟩ := c
  obtain ⟨params', body', scope'⟩ := c'
  cases h.parameters hc.params
  cases h.trees hc.body
  cases h.scopes.mp hc.scope
  rfl

theorem target {c c' : Callable} (hc : B.Target c c') : c = c' := by
  cases hc with
  | method hf hv => rw [h.functions.mp hf, h.val.mp hv]
  | listMethod m hp => rw [h.lists.mp hp]
  | fileMethod m hv => rw [h.val.mp hv]
  | _ => rfl

theorem classes {t t' : ClassTable} (ht : B.Classes t t') : t = t' := by
  have hclass {c c' : ClassInfo} (hc : B.Class c c') : c = c' := by
    obtain ⟨fields, parents, methods⟩ := c
    obtain ⟨fields', parents', methods'⟩ := c'
    obtain ⟨hf, hp, hm⟩ := hc
    cases hf
    cases hp
    cases hm.eq h.functions.mp
    rfl
  exact congrArg ClassTable.mk (Tables.eq ht hclass)

theorem signal {s s' : Signal} (hs : B.Ends s s') : s = s' := by
  cases hs with
  | fault hf =>
    cases hf with
    | plain _ => rfl
    | thrown hv => rw [h.val.mp hv]
    | missingKey hv => rw [h.val.mp hv]
  | _ => rfl

/-- **States that stand for each other are equal**, apart from foreign names. -/
theorem sameApart {w w' : World} (hw : B.Match w w') {name : String} (hn : ∀ other, B.foreign other → other = name)
    (hg : B.start'.globals = B.start.globals) (ha : B.start'.arguments = B.start.arguments)
    (ho : B.start'.output = B.start.output) : w.SameApart name w' := by
  have hvars (i : Nat) : B.Vars (w.scope i) (w'.scope i) := hw.scope (h.scopes.mpr rfl)
  have hnans : w'.nans = w.nans := by
    obtain ⟨k, hk, hk'⟩ := hw.nans
    rw [hk, hk', h.nans.mp (.new k)]
  have houtput : w'.output = w.output := by
    obtain ⟨text, ht, ht'⟩ := hw.output
    rw [ht, ht', ho]
  have hlists : w.lists = w'.lists :=
    hw.lists.eq (fun _ => h.lists.mpr rfl) fun hv => Array.toList_inj.mp (h.vals.mp hv)
  have hsize : w'.scopes.size = w.scopes.size := (h.scopes.mp hw.scopes.pairs_size).symm
  refine ⟨?_, hsize, fun i other hother => ?_, fun i => (h.option.mp (hvars i).unnamed).symm⟩
  · rw [hlists, hw.dicts.eq (fun _ => h.dicts.mpr rfl) h.dict.mp, hw.tuples.eq (fun _ => h.tuples.mpr rfl) h.vals.mp,
      hw.functions.eq (fun _ => h.functions.mpr rfl) h.function,
      hw.callables.eq (fun _ => h.callables.mpr rfl) h.target, hw.handles, ← hnans, h.classes hw.classes, hw.globals,
      ← hg, ← hw.globals', hw.arguments, ← ha, ← hw.arguments', hw.moduleName, hw.disk, hw.input, ← houtput]
  · rcases (hvars i).find other with hr | ⟨hf, -⟩
    · exact (h.option.mp hr).symm
    · exact absurd (hn other hf) hother

end Straight

/-- runs from states with the same cells: a state, and one that differs from it in scopes and in what is held -/
abbrev twin (w w' : World) (foreign pinned : String → Prop) (stops : World → Prop) (home : Nat)
    (base base' : List Cell) : Bond where
  lists := .ident w.lists.size
  dicts := .ident w.dicts.size
  tuples := .ident w.tuples.size
  functions := .ident w.functions.size
  callables := .ident w.callables.size
  scopes := .ident w.scopes.size
  nans := .ident w.nans
  start := w
  start' := w'
  foreign := foreign
  inert := fun _ => False
  inert' := fun _ => False
  stops := stops
  home := home
  home' := home
  pinned := pinned
  base := base
  base' := base'

theorem straight_twin (w w' : World) (foreign pinned : String → Prop) (stops : World → Prop) (home : Nat)
    (base base' : List Cell) : (twin w w' foreign pinned stops home base base').Straight :=
  ⟨Pairing.pairs_ident, Pairing.pairs_ident, Pairing.pairs_ident, Pairing.pairs_ident, Pairing.pairs_ident,
    Pairing.pairs_ident, Pairing.pairs_ident⟩

end Bond

/-! ## tidy states -/

/-- a tree that a program has, or a value that is read as a tree -/
def Node.Whole (t : Node) : Prop := t.Closed ∨ ∃ v, t = .quoted v

/-- what holds of the states of a program: names are bound once in a scope, and functions and constructors have
the trees that a program can give them -/
structure World.Tidy (w : World) : Prop where
  emptyTuple : w.tuples[0]? = some []
  functions {c : Closure} : c ∈ w.functions → ∀ t ∈ c.body ++ paramDefaults c.params, t.Whole
  callables {name : String} {fields : List (String × Option Node)} {qualified : List (String × String)}
    {included : Bool} : .constructor name fields qualified included ∈ w.callables →
    ∀ t ∈ fieldDefaults fields, t.Closed
  scopes {s : Scope} : s ∈ w.scopes → s.Distinct

namespace Bond.Straight

variable {B : Bond} (h : B.Straight)
include h

theorem tree_self {t : Node} (ht : t.Whole) : B.Tree t t := by
  rcases ht with hc | ⟨v, rfl⟩
  · exact .same hc
  · exact .quoted (h.val.mpr rfl)

omit h in
theorem whole {t t' : Node} (ht : B.Tree t t') : t.Whole := by
  cases ht with
  | same hc => exact Or.inl hc
  | quoted hv => exact Or.inr ⟨_, rfl⟩

theorem parameter_self {p : Param Node} (hp : ∀ t ∈ p.tree?, t.Whole) : B.Parameter p p := by
  cases p with
  | receiver => exact .receiver
  | plain name e =>
    cases e with
    | none => exact .plain name .none
    | some t => exact .plain name (.some (h.tree_self (hp t rfl)))
  | rest name => exact .rest name
  | keywords name => exact .keywords name

theorem function_self {c : Closure} (hc : ∀ t ∈ c.body ++ paramDefaults c.params, t.Whole) : B.Function c c := by
  rw [List.forall_mem_append] at hc
  refine ⟨List.forall₂_same.mpr fun p hp => h.parameter_self fun t ht => hc.2 t ?_,
    List.forall₂_same.mpr fun t ht => h.tree_self (hc.1 t ht), h.scopes.mpr rfl⟩
  exact List.mem_filterMap.mpr ⟨p, hp, ht⟩

omit h in
theorem whole_of_trees {ts ts' : List Node} (ht : B.Trees ts ts') : ∀ t ∈ ts, t.Whole := by
  induction ht with
  | nil => exact List.forall_mem_nil _
  | cons hx _ ih => exact List.forall_mem_cons.mpr ⟨whole hx, ih⟩

omit h in
theorem whole_of_parameters {ps ps' : List (Param Node)} (hp : B.Parameters ps ps') :
    ∀ t ∈ paramDefaults ps, t.Whole := by
  induction hp with
  | nil => exact List.forall_mem_nil _
  | cons hx _ ih =>
    rw [paramDefaults_cons, List.forall_mem_append]
    refine ⟨?_, ih⟩
    cases hx with
    | plain name he =>
      cases he with
      | none => exact List.forall_mem_nil _
      | some ht => exact List.forall_mem_singleton.mpr (whole ht)
    | _ => exact List.forall_mem_nil _

theorem target_self {c : Callable}
    (hc : ∀ name fields qualified included, c = .constructor name fields qualified included →
      ∀ t ∈ fieldDefaults fields, t.Closed) : B.Target c c := by
  cases c with
  | constructor name fields qualified included => exact .constructor name qualified included (hc _ _ _ _ rfl)
  | method i v => exact .method (h.functions.mpr rfl) (h.val.mpr rfl)
  | textMethod m s => exact .textMethod m s
  | listMethod m i => exact .listMethod m (h.lists.mpr rfl)
  | fileMethod m v => exact .fileMethod m (h.val.mpr rfl)

theorem classes_self (t : ClassTable) : B.Classes t t :=
  List.forall₂_same.mpr fun _ _ => ⟨rfl, rfl, rfl, List.forall₂_same.mpr fun _ _ => ⟨rfl, h.functions.mpr rfl⟩⟩

theorem vars_self {s : Scope} (hd : s.Distinct) : B.Vars s s :=
  ⟨hd, hd, fun _ => Or.inl (h.option.mpr rfl), h.option.mpr rfl⟩

/-- states that stand for others cell by cell are tidy -/
theorem tidy {w w' : World} (hw : B.Match w w') : w.Tidy where
  emptyTuple := hw.emptyTuple
  functions {c} hc := by
    obtain ⟨c', hf⟩ := hw.functions.exists_rel (fun _ => h.functions.mpr rfl) hc
    exact List.forall_mem_append.mpr ⟨whole_of_trees hf.body, whole_of_parameters hf.params⟩
  callables {name fields qualified included} hc := by
    obtain ⟨c', ht⟩ := hw.callables.exists_rel (fun _ => h.callables.mpr rfl) hc
    cases ht with
    | constructor _ _ _ hf => exact hf
  scopes {s} hs := by
    obtain ⟨s', hv⟩ := hw.scopes.exists_rel (fun _ => h.scopes.mpr rfl) hs
    exact hv.distinct

end Bond.Straight

namespace World.Tidy

variable {w : World} (h : w.Tidy)
include h

/-- **A tidy state stands for itself**, and for one with other variables. -/
theorem twin {scopes : Array Scope} {active : List Cell} {foreign pinned : String → Prop} {stops : World → Prop}
    {home : Nat} {base base' : List Cell} {w' : World} (hw : w' = { w with scopes := scopes, active := active })
    (hs : (Bond.twin w w' foreign pinned stops home base base').Sound)
    (hv : (Pairing.ident w.scopes.size).Cells (Bond.twin w w' foreign pinned stops home base base').Vars
      w.scopes w'.scopes w.scopes w'.scopes)
    (ha : (Bond.twin w w' foreign pinned stops home base base').Active w.active w'.active) :
    (Bond.twin w w' foreign pinned stops home base base').Match w w' := by
  have hB := Bond.straight_twin w w' foreign pinned stops home base base'
  subst hw
  exact
    { sound := hs
      lists := .same fun _ _ => hB.vals.mpr rfl
      dicts := .same fun _ _ => hB.dict.mpr rfl
      tuples := .same fun _ _ => hB.vals.mpr rfl
      emptyTuple := h.emptyTuple
      functions := .same fun _ hc => hB.function_self (h.functions hc)
      code := fun _ _ => rfl
      code' := fun _ _ => rfl
      callables := .same fun _ hc => hB.target_self fun _ _ _ _ he => h.callables (he ▸ hc)
      scopes := hv
      handles := rfl
      nans := ⟨0, rfl, rfl⟩
      classes := hB.classes_self _
      globals := rfl
      globals' := rfl
      active := ha
      pinned := fun _ => rfl
      arguments := rfl
      arguments' := rfl
      moduleName := rfl
      named := rfl
      disk := rfl
      input := rfl
      output := ⟨"", String.append_empty.symm, String.append_empty.symm⟩ }

/-- **What is executed leaves a tidy state.** -/
theorem exec {node : Node} (hc : node.Closed) (n scope : Nat) : (((machine n).exec node scope).after w).Tidy := by
  have hB := Bond.straight_twin w w (fun _ => False) (fun _ => False) (fun _ => False) w.globals [] []
  have hsound : (Bond.twin w w (fun _ => False) (fun _ => False) (fun _ => False) w.globals [] []).Sound :=
    Bond.sound_plainBond (hB.tuples.mpr rfl) (hB.scopes.mpr rfl) (hB.lists.mpr rfl)
  have hactive := List.forall₂_same.mpr fun c (_ : c ∈ w.active) => hB.same c
  have hmatch := h.twin rfl hsound (.same fun _ hs => hB.vars_self (h.scopes hs))
    ⟨w.active, w.active, hactive, (List.append_nil _).symm, (List.append_nil _).symm⟩
  have hrun := (Bond.machines_same (fun _ => id) (fun _ => id) n).tree (.same hc) (hB.scopes.mpr (Eq.refl scope))
    _ _ hmatch
  unfold Exec.after
  revert hrun
  generalize (machine n).exec node scope w = r
  intro hrun
  cases hrun with
  | ok _ hu => exact hB.tidy hu
  | error _ hu => exact hB.tidy hu
  | stop hu => exact hu.elim

end World.Tidy

/-- a state with one scope in which nothing was made -/
theorem World.tidy_of_empty {w : World} (ht : w.tuples[0]? = some []) (hf : w.functions = #[])
    (hc : w.callables = #[]) {s : Scope} (hs : w.scopes = #[s]) (hd : s.Distinct) : w.Tidy where
  emptyTuple := ht
  functions h := absurd (hf ▸ h) (Array.not_mem_empty _)
  callables h := absurd (hc ▸ h) (Array.not_mem_empty _)
  scopes h := by
    rw [hs] at h
    rw [List.mem_singleton.mp (Array.mem_toList_iff.mpr h)]
    exact hd

theorem World.tidy_start (args input : List String) (disk : Disk) (moduleName : String) :
    (World.start args input disk moduleName).Tidy :=
  World.tidy_of_empty rfl rfl rfl rfl (Bond.distinct_initialScope _ _)

end BraceScript
