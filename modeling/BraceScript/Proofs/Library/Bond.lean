import BraceScript.Proofs.Library.Cells
import BraceScript.Proofs.Simulation.Rebase

/-!
# The states after both inclusions

A library can be included by a call, which gives its classes and functions as the members of a dictionary, or by
a statement, which binds their names. The functions of the library are in different cells then, but they stand
for each other, and so do the states, apart from the names of the library and that of the dictionary.

* `methodsOf_closed`, `classesOf_closed`   the code of a library holds no values
* `LibraryCell`          the cells that the members of a library lead to
* `Bond.Library`         what a bond of the states after both inclusions relates
* `World.library_bond`   the states after both inclusions stand for each other
-/

namespace BraceScript

open Exec

/-! ## code without values -/

mutual

theorem allMethods_closed : (c : ClassDecl Node) → (∀ d ∈ c.classes, Bond.ClassClosed d) →
    ∀ f ∈ c.allMethods, ∀ t ∈ f.code, t.Closed
  | .mk name parents fields methods nested, h => by
    rw [ClassDecl.classes, List.forall_mem_cons] at h
    rw [ClassDecl.allMethods_mk]
    exact List.forall_mem_append.mpr ⟨h.1.2, allMethodsIn_closed nested h.2⟩

theorem allMethodsIn_closed : (cs : List (ClassDecl Node)) → (∀ d ∈ classesIn cs, Bond.ClassClosed d) →
    ∀ f ∈ allMethodsIn cs, ∀ t ∈ f.code, t.Closed
  | [], _ => List.forall_mem_nil _
  | c :: cs, h => by
    rw [classesIn, List.forall_mem_append] at h
    rw [allMethodsIn_cons]
    exact List.forall_mem_append.mpr ⟨allMethods_closed c h.1, allMethodsIn_closed cs h.2⟩

end

theorem methodsOf_closed {ds : List Definition} (h : ∀ d ∈ ds, d.node.Closed) :
    ∀ f ∈ methodsOf ds, ∀ t ∈ f.code, t.Closed := by
  induction ds with
  | nil => exact List.forall_mem_nil _
  | cons d ds ih =>
    rw [List.forall_mem_cons] at h
    cases d with
    | classDecl c =>
      exact List.forall_mem_append.mpr ⟨allMethods_closed c ((closed_classForm c).mp h.1), ih h.2⟩
    | function f => exact List.forall_mem_cons.mpr ⟨closed_methodForm.mp h.1, ih h.2⟩

theorem classesOf_closed {ds : List Definition} (h : ∀ d ∈ ds, d.node.Closed) :
    ∀ c ∈ classesOf ds, ∀ d ∈ c.classes, Bond.ClassClosed d := by
  induction ds with
  | nil => exact List.forall_mem_nil _
  | cons d ds ih =>
    rw [List.forall_mem_cons] at h
    cases d with
    | classDecl c => exact List.forall_mem_cons.mpr ⟨(closed_classForm c).mp h.1, ih h.2⟩
    | function f => exact ih h.2

/-! ## what the cells of a library hold -/

def Method.closure (globals : Nat) (f : Method Node) : Closure := ⟨f.params, f.body, globals⟩

theorem toList_addClosures (globals : Nat) (fs : Array Closure) (ms : List (Method Node)) :
    (addClosures globals fs ms).toList = fs.toList ++ ms.map (Method.closure globals) := by
  induction ms generalizing fs with
  | nil => exact (List.append_nil _).symm
  | cons m ms ih =>
    have hrest := ih (fs.push (m.closure globals))
    rw [Array.toList_push, List.append_assoc] at hrest
    exact hrest

theorem addClosures_eq (globals : Nat) (ms : List (Method Node)) :
    addClosures globals #[] ms = (ms.map (Method.closure globals)).toArray :=
  congrArg List.toArray (toList_addClosures globals #[] ms)

theorem addConstructors_eq (included : Bool) (cs : List (ClassDecl Node)) :
    addConstructors included #[] cs = (cs.map (constructorOf included)).toArray := by
  have hpush (fs : Array Callable) :
      (addConstructors included fs cs).toList = fs.toList ++ cs.map (constructorOf included) := by
    induction cs generalizing fs with
    | nil => exact (List.append_nil _).symm
    | cons c cs ih =>
      have hrest := ih (fs.push (constructorOf included c))
      rw [Array.toList_push, List.append_assoc] at hrest
      exact hrest
  exact congrArg List.toArray (hpush #[])

/-- the cells of a library: some of the first dictionaries, functions and constructors -/
def LibraryCell (dicts functions callables : Nat) : Cell → Prop
  | .dict i => i < dicts
  | .function i => i < functions
  | .callable i => i < callables
  | _ => False

section
variable {dicts functions callables : Nat}

theorem cells_functionMembers {cell : Nat} {fs : List (Method Node)} (h : cell + fs.length ≤ functions) :
    ∀ p ∈ functionMembers cell fs, ∀ c, p.2.cell? = some c → LibraryCell dicts functions callables c := by
  induction fs generalizing cell with
  | nil => exact List.forall_mem_nil _
  | cons f fs ih =>
    rw [List.length_cons] at h
    have hrest := @ih (cell + 1) (by omega)
    rw [functionMembers]
    split
    · exact hrest
    · refine List.forall_mem_cons.mpr ⟨fun c hc => ?_, hrest⟩
      cases hc
      show cell < functions
      omega

theorem cells_classMembers {cell : Nat} {cs : List (ClassDecl Node)} (h : cell + cs.length ≤ callables) :
    ∀ p ∈ classMembers cell cs, ∀ c, p.2.cell? = some c → LibraryCell dicts functions callables c := by
  induction cs generalizing cell with
  | nil => exact List.forall_mem_nil _
  | cons k cs ih =>
    rw [List.length_cons] at h
    refine List.forall_mem_cons.mpr ⟨fun c hc => ?_, ih (by omega)⟩
    cases hc
    show cell < callables
    omega

theorem cells_fileMembers {cell constructor : Nat} {ds : List Definition}
    (hf : cell + (methodsOf ds).length ≤ functions) (hc : constructor + (classesOf ds).length ≤ callables) :
    ∀ p ∈ fileMembers cell constructor ds, ∀ c, p.2.cell? = some c → LibraryCell dicts functions callables c := by
  induction ds generalizing cell constructor with
  | nil => exact List.forall_mem_nil _
  | cons d ds ih =>
    cases d with
    | classDecl k =>
      rw [methodsOf, List.length_append] at hf
      rw [classesOf, List.length_cons] at hc
      refine List.forall_mem_cons.mpr ⟨fun c he => ?_, ih (by omega) (by omega)⟩
      cases he
      show constructor < callables
      omega
    | function f =>
      rw [methodsOf, List.length_cons] at hf
      have hrest := @ih (cell + 1) constructor (by omega) hc
      rw [fileMembers]
      split
      · exact hrest
      · refine List.forall_mem_cons.mpr ⟨fun c he => ?_, hrest⟩
        cases he
        show cell < functions
        omega

end

namespace World

variable {w : World} {i : Nat} {c : Cell}

theorem next_function {globals : Nat} {ms : List (Method Node)} (h : w.functions = addClosures globals #[] ms)
    (hc : c ∈ w.next (.function i)) : c = .scope globals := by
  rw [next, h, addClosures_eq, List.getElem?_toArray, List.getElem?_map] at hc
  cases hm : ms[i]? with
  | none =>
    rw [hm] at hc
    cases hc
  | some m =>
    rw [hm] at hc
    exact List.mem_singleton.mp hc

theorem next_callable {included : Bool} {cs : List (ClassDecl Node)}
    (h : w.callables = addConstructors included #[] cs) : w.next (.callable i) = [] := by
  rw [next, callable, h, addConstructors_eq, Array.getD_eq_getD_getElem?, List.getElem?_toArray, List.getElem?_map]
  cases cs[i]? with
  | none => rfl
  | some k =>
    cases k
    rfl

theorem next_dict {P : Cell → Prop} (h : (w.dict i).Holds P) (hc : c ∈ w.next (.dict i)) : P c := by
  rw [next] at hc
  rcases List.mem_append.mp hc with hm | hm
  · obtain ⟨k, hk, he⟩ := List.mem_filterMap.mp hm
    rw [h.1 k hk] at he
    cases he
  · obtain ⟨v, hv, he⟩ := List.mem_filterMap.mp hm
    exact h.2 v hv c he

theorem cell_initialScope {count arguments : Nat} {name : String} {v : Value}
    (hv : (initialScope count arguments).find? name = some v) (hc : v.cell? = some c) : c = .list arguments := by
  rcases List.mem_append.mp (mem_of_lookup hv) with hm | hm
  · obtain ⟨b, -, he⟩ := List.mem_map.mp hm
    cases he
    cases hc
  · simp only [List.mem_cons, Prod.mk.injEq, List.not_mem_nil, or_false] at hm
    rcases hm with ⟨-, rfl⟩ | ⟨-, rfl⟩ | ⟨-, rfl⟩ | ⟨-, rfl⟩ | ⟨-, rfl⟩
    all_goals cases hc
    rfl

end World

/-! ## the states after both inclusions -/

theorem length_cellsOf (cell next : Nat) (ds : List Definition) :
    (cellsOf cell next ds).length = (methodsOf ds).length :=
  (forall₂_cellsOf (R := fun _ _ => True) (fun _ _ _ => trivial) fun _ _ _ => trivial).length_eq

/-- a function of a library is in its cell after a call -/
theorem methods_cellsOf {ds : List Definition} {i j : Nat}
    (h : (cellsOf 0 (allMethodsIn (classesOf ds)).length ds)[j]? = some i) :
    ∃ m, (allMethodsIn (classesOf ds) ++ functionsOf ds)[i]? = some m ∧ (methodsOf ds)[j]? = some m := by
  have hcells : List.Forall₂ (fun i m => (allMethodsIn (classesOf ds) ++ functionsOf ds)[i]? = some m)
      (cellsOf 0 (allMethodsIn (classesOf ds)).length ds) (methodsOf ds) := by
    refine forall₂_cellsOf (fun i m hi => ?_) fun i m hi => ?_
    · have hlt := (List.getElem?_eq_some_iff.mp hi).1
      show (allMethodsIn (classesOf ds) ++ functionsOf ds)[0 + i]? = some m
      rw [Nat.zero_add, List.getElem?_append_left hlt]
      exact hi
    · show (allMethodsIn (classesOf ds) ++ functionsOf ds)[(allMethodsIn (classesOf ds)).length + i]? = some m
      rw [List.getElem?_append_right (Nat.le_add_right _ _), Nat.add_sub_cancel_left]
      exact hi
  obtain ⟨hlen, hget⟩ := List.forall₂_iff_get.mp hcells
  obtain ⟨hj, rfl⟩ := List.getElem?_eq_some_iff.mp h
  refine ⟨(methodsOf ds).get ⟨j, hlen ▸ hj⟩, hget j hj (hlen ▸ hj), ?_⟩
  exact List.getElem?_eq_getElem (hlen ▸ hj)

/-- the functions of a library that stand for each other -/
theorem Pairing.exists_ofCells (ds : List Definition) : ∃ q : Pairing,
    q.left = (allMethodsIn (classesOf ds) ++ functionsOf ds).length ∧ q.right = (methodsOf ds).length ∧
      ∀ {i j : Nat}, q.old i j ↔ (cellsOf 0 (allMethodsIn (classesOf ds)).length ds)[j]? = some i := by
  have hleft : ∀ p ∈ (cellsOf 0 (allMethodsIn (classesOf ds)).length ds).zipIdx,
      p.1 < (allMethodsIn (classesOf ds) ++ functionsOf ds).length := by
    intro p hp
    have hm := mem_cellsOf (List.fst_mem_of_mem_zipIdx hp)
    rw [List.length_append]
    omega
  have hright : ∀ p ∈ (cellsOf 0 (allMethodsIn (classesOf ds)).length ds).zipIdx,
      p.2 < (methodsOf ds).length := by
    intro p hp
    have hlt := List.snd_lt_of_mem_zipIdx hp
    rw [length_cellsOf] at hlt
    omega
  obtain ⟨q, hl, hr, hq⟩ := exists_ofList _ _ _ hleft hright
    (by rw [List.zipIdx_map_fst]; exact nodup_cellsOf (by omega))
    (by rw [List.zipIdx_map_snd]; exact List.nodup_range')
  exact ⟨q, hl, hr, fun {i j} => hq.trans List.mk_mem_zipIdx_iff_getElem?⟩

/-- the class tables after both inclusions -/
theorem Bond.library_classes {B : Bond} {ds : List Definition} (hd : (boundNames ds).Nodup)
    (ha : attachedAfter [] ds = true)
    (h : Numbered B.functions.Pairs 0 (cellsOf 0 (allMethodsIn (classesOf ds)).length ds)) :
    B.Classes (ClassTable.empty.update (libraryTable 0 ds)) (fileTable 0 .empty ds) := by
  have hempty : ClassTable.empty.Distinct := List.nodup_nil
  have hdistinct : (libraryTable 0 ds).Distinct := (hempty.update _).foldl_attachKnown _
  have htable := kindTable_eq ha hd (t := ClassTable.empty) (List.forall_mem_nil _) 0
    (allMethodsIn (classesOf ds)).length
  rw [ClassTable.empty_update hdistinct, libraryTable, Nat.zero_add, htable]
  exact kindTable_rel h .nil

namespace Bond

/-- what a bond of the states after both inclusions relates, for a run that may be stopped with a given state -/
structure Library (B : Bond) (w u : World) (x : String) (ds : List Definition) : Prop where
  start : B.start = w.included x ds
  start' : B.start' = w.stated ds
  names (name : String) : B.foreign name ↔ name = x ∨ name ∈ boundNames ds
  stops : B.stops u
  stopped {v : World} : B.stops v → v = u
  emptyTuple : B.tuples.Pairs 0 0
  globals : B.scopes.Pairs 0 0
  arguments : B.lists.Pairs 0 0
  functions : Numbered B.functions.Pairs 0 (cellsOf 0 (allMethodsIn (classesOf ds)).length ds)
  inert : B.inert = LibraryCell 1 (allMethodsIn (classesOf ds) ++ functionsOf ds).length (classesOf ds).length
  inert' : B.inert' = LibraryCell 0 (methodsOf ds).length (classesOf ds).length
  frozen {c : Cell} : B.inert c → B.Frozen c
  frozen' {c : Cell} : B.inert' c → B.Frozen' c
  home : B.home = 0
  home' : B.home' = 0
  free (name : String) : ¬ B.pinned name
  base : B.base = []
  base' : B.base' = []

namespace Library

variable {args input : List String} {disk : Disk} {moduleName x : String} {ds : List Definition} {B : Bond}
  {u : World} (h : B.Library (World.start args input disk moduleName) u x ds)
include h

theorem own (name : String) : B.own name =
    if name = x then some (.dict 0) else (World.initialScope args.length 0).find? name := by
  rw [Bond.own, h.start, h.home]
  exact Scope.find?_insert _ x name (.dict 0)

theorem own' (hd : (boundNames ds).Nodup) (name : String) : B.own' name =
    ((fileMembers 0 0 ds).lookup name).or ((World.initialScope args.length 0).find? name) := by
  rw [Bond.own', h.start', h.home']
  refine Scope.find?_putAll _ ?_ name
  rw [keys_fileMembers]
  exact hd

theorem sound (hd : (boundNames ds).Nodup) : B.Sound where
  emptyTuple := h.emptyTuple
  globals := by
    rw [h.start, h.start']
    exact h.globals
  arguments := by
    rw [h.start, h.start']
    exact h.arguments
  frozen := h.frozen
  frozen' := h.frozen'
  next {c d} hc hn := by
    unfold Leads
    rw [h.inert] at hc ⊢
    rw [h.start] at hn ⊢
    cases c with
    | dict i =>
      obtain rfl : i = 0 := Nat.lt_one_iff.mp hc
      have hempty (P : Cell → Prop) : Dict.empty.Holds P := ⟨List.forall_mem_nil _, List.forall_mem_nil _⟩
      refine Or.inl (World.next_dict (((hempty _).putAll ?_).putAll ?_) hn)
      · exact cells_classMembers (Nat.le_of_eq (Nat.zero_add _))
      · refine cells_functionMembers (Nat.le_of_eq ?_)
        rw [List.length_append]
        exact congrArg (· + _) (Nat.zero_add _)
    | function i => exact Or.inr (Or.inl (World.next_function rfl hn))
    | callable i =>
      rw [World.next_callable rfl] at hn
      cases hn
    | _ => exact hc.elim
  next' {c d} hc hn := by
    unfold Leads'
    rw [h.inert'] at hc ⊢
    rw [h.start'] at hn ⊢
    cases c with
    | dict i => exact absurd hc (Nat.not_lt_zero i)
    | function i => exact Or.inr (Or.inl (World.next_function rfl hn))
    | callable i =>
      rw [World.next_callable rfl] at hn
      cases hn
    | _ => exact hc.elim
  own {name v c} _ ho hv := by
    unfold Leads
    rw [h.own] at ho
    split at ho
    · cases ho
      cases hv
      rw [h.inert]
      exact Or.inl Nat.zero_lt_one
    · rw [h.start]
      exact Or.inr (Or.inr (Or.inl (World.cell_initialScope ho hv)))
  own' {name v c} _ ho hv := by
    unfold Leads'
    rw [h.own' hd, Option.or_eq_some_iff] at ho
    rcases ho with hm | ⟨-, hm⟩
    · rw [h.inert']
      exact Or.inl (cells_fileMembers (by omega) (by omega) _ (mem_of_lookup hm) c hv)
    · rw [h.start']
      exact Or.inr (Or.inr (Or.inl (World.cell_initialScope hm hv)))
  base {c} hc := by
    rw [h.base] at hc
    cases hc
  base' {c'} hc := by
    rw [h.base'] at hc
    cases hc
  pinned {name} hn := absurd hn (h.free name)

theorem vars (hd : (boundNames ds).Nodup) :
    B.Vars ((World.initialScope args.length 0).insert x (.dict 0))
      ((World.initialScope args.length 0).putAll (fileMembers 0 0 ds)) where
  distinct := (distinct_initialScope _ _).insert x _
  distinct' := (distinct_initialScope _ _).putAll _
  find name := by
    by_cases hn : B.foreign name
    · refine Or.inr ⟨hn, ?_, ?_⟩
      · rw [Bond.own, h.start, h.home]
        rfl
      · rw [Bond.own', h.start', h.home']
        rfl
    · rw [h.names, not_or] at hn
      have hnone : (fileMembers 0 0 ds).lookup name = none := lookup_eq_none (by rw [keys_fileMembers]; exact hn.2)
      rw [Scope.find?_insert, if_neg hn.1, Scope.find?_putAll _ (by rw [keys_fileMembers]; exact hd), hnone]
      exact (vars_initialScope args.length h.arguments).find name
  unnamed := by
    rw [Scope.unnamed_insert, Scope.unnamed_putAll]
    exact .none

theorem functions_rel (hc : ∀ d ∈ ds, d.node.Closed) {i j : Nat}
    (hp : (cellsOf 0 (allMethodsIn (classesOf ds)).length ds)[j]? = some i) :
    Option.Rel B.Function (addClosures 0 #[] (allMethodsIn (classesOf ds) ++ functionsOf ds))[i]?
      (addClosures 0 #[] (methodsOf ds))[j]? := by
  obtain ⟨m, hm, hm'⟩ := methods_cellsOf hp
  rw [addClosures_eq, addClosures_eq, List.getElem?_toArray, List.getElem?_toArray, List.getElem?_map,
    List.getElem?_map, hm, hm']
  exact .some (.closed (methodsOf_closed hc m (List.mem_of_getElem? hm')) h.globals)

end Library

end Bond

/-- **The states after both inclusions stand for each other.** -/
theorem World.library_bond (args input : List String) (disk : Disk) (moduleName x : String) (u : World)
    {ds : List Definition} (hd : (boundNames ds).Nodup) (ha : attachedAfter [] ds = true)
    (hc : ∀ d ∈ ds, d.node.Closed) :
    ∃ B : Bond, B.Library (start args input disk moduleName) u x ds ∧
      B.Match ((start args input disk moduleName).included x ds) ((start args input disk moduleName).stated ds) := by
  obtain ⟨q1, ql1, qr1, hq1⟩ := Pairing.exists_only Nat.zero_lt_one Nat.zero_lt_one
  obtain ⟨q2, ql2, qr2, hq2⟩ := Pairing.exists_none 1 0
  obtain ⟨q4, ql4, qr4, hq4⟩ := Pairing.exists_ofCells ds
  obtain ⟨q5, ql5, qr5, hq5⟩ := Pairing.exists_none (classesOf ds).length (classesOf ds).length
  obtain ⟨q7, ql7, qr7, hq7⟩ := Pairing.exists_none 0 0
  have hfirst : q1.Pairs 0 0 := .old (hq1.mpr ⟨rfl, rfl⟩)
  have hfunctions : Numbered q4.Pairs 0 (cellsOf 0 (allMethodsIn (classesOf ds)).length ds) := by
    intro i cell hi
    rw [Nat.zero_add]
    exact .old (hq4.mpr hi)
  have hB : Bond.Library
      { lists := q1, dicts := q2, tuples := q1, functions := q4, callables := q5, scopes := q1, nans := q7
        start := (start args input disk moduleName).included x ds
        start' := (start args input disk moduleName).stated ds
        foreign := fun name => name = x ∨ name ∈ boundNames ds
        inert := LibraryCell 1 (allMethodsIn (classesOf ds) ++ functionsOf ds).length (classesOf ds).length
        inert' := LibraryCell 0 (methodsOf ds).length (classesOf ds).length
        stops := (· = u) }
      (start args input disk moduleName) u x ds := by
    refine ⟨rfl, rfl, fun _ => Iff.rfl, rfl, id, hfirst, hfirst, hfirst, hfunctions, rfl, rfl, fun {c} h => ?_,
      fun {c} h => ?_, rfl, rfl, fun _ => id, rfl, rfl⟩
    · cases c with
      | dict i => exact ⟨ql2 ▸ h, fun _ => hq2⟩
      | callable i => exact ⟨ql5 ▸ h, fun _ => hq5⟩
      | function i => exact ql4 ▸ h
      | _ => exact h.elim
    · cases c with
      | dict i => exact absurd h (Nat.not_lt_zero i)
      | callable i => exact ⟨qr5 ▸ h, fun _ => hq5⟩
      | function i => exact qr4 ▸ h
      | _ => exact h.elim
  refine ⟨_, hB, ?_⟩
  exact
    { sound := hB.sound hd
      lists := .begin ql1 qr1 fun ho => by
        obtain ⟨rfl, rfl⟩ := hq1.mp ho
        refine .some (List.forall₂_same.mpr fun v hv => ?_)
        obtain ⟨text, -, rfl⟩ := List.mem_map.mp hv
        exact .str text
      dicts := .begin ql2 qr2 fun ho => absurd ho hq2
      tuples := .begin ql1 qr1 fun ho => by
        obtain ⟨rfl, rfl⟩ := hq1.mp ho
        exact .some .nil
      emptyTuple := rfl
      functions := .begin (ql4.trans ((size_addClosures _ _ _).trans (Nat.zero_add _)).symm)
        (qr4.trans ((size_addClosures _ _ _).trans (Nat.zero_add _)).symm) fun ho => hB.functions_rel hc (hq4.mp ho)
      code := fun _ _ => rfl
      code' := fun _ _ => rfl
      callables := .begin (ql5.trans ((size_addConstructors _ _ _).trans (Nat.zero_add _)).symm)
        (qr5.trans ((size_addConstructors _ _ _).trans (Nat.zero_add _)).symm) fun ho => absurd ho hq5
      scopes := .begin ql1 qr1 fun ho => by
        obtain ⟨rfl, rfl⟩ := hq1.mp ho
        exact .some (hB.vars hd)
      handles := rfl
      nans := ⟨0, ql7.symm, qr7.symm⟩
      classes := Bond.library_classes hd ha hfunctions
      globals := rfl
      globals' := rfl
      active := ⟨[], [], .nil, rfl, rfl⟩
      pinned := False.elim
      arguments := rfl
      arguments' := rfl
      moduleName := rfl
      named := rfl
      disk := rfl
      input := rfl
      output := ⟨"", String.append_empty.symm, String.append_empty.symm⟩ }

end BraceScript
