import BraceScript.Proofs.Library.Basic
import Mathlib.Data.List.TakeWhile

/-!
# The functions of a library

The functions of a library are in other cells after a call than after a statement. Here is which of them stand
for each other, and that they are found by the same names: in the class tables, and as members of the library.

* `attachedAfter`    functions with a dotted name come after the class that they name
* `kindTable_eq`     the class table after a call, as if the definitions had been executed
* `cellsOf`          the cells of the functions after a call, in the order of the file
* `kindTable_rel`    class tables whose functions stand for each other
* `members_rel`      members that stand for each other
-/

namespace BraceScript

open Exec

/-! ## class tables -/

/-- does every function with a dotted name come after the class that it names? -/
def attachedAfter (before : List String) : List Definition → Bool
  | [] => true
  | .classDecl c :: ds => attachedAfter (c.name :: before) ds
  | .function f :: ds => ((splitMethodName f.name).all fun p => before.contains p.1) && attachedAfter before ds

mutual

theorem dot_mem_fullNames (outer : String) : (c : ClassDecl Node) →
    ∀ name ∈ c.fullNames (some outer), '.' ∈ name.toList
  | .mk name parents fields methods nested => by
    rw [ClassDecl.fullNames]
    refine List.forall_mem_cons.mpr ⟨?_, dot_mem_fullNamesIn _ nested⟩
    rw [qualify, String.toList_append, String.toList_append]
    exact List.mem_append_left _ (List.mem_append_right _ (by decide))

theorem dot_mem_fullNamesIn (outer : String) : (cs : List (ClassDecl Node)) →
    ∀ name ∈ fullNamesIn (some outer) cs, '.' ∈ name.toList
  | [] => List.forall_mem_nil _
  | c :: cs => by
    rw [fullNamesIn]
    exact List.forall_mem_append.mpr ⟨dot_mem_fullNames outer c, dot_mem_fullNamesIn outer cs⟩

end

theorem not_mem_fullNamesIn {name : String} (hdot : '.' ∉ name.toList) {cs : List (ClassDecl Node)}
    (h : name ∉ cs.map ClassDecl.name) : name ∉ fullNamesIn none cs := by
  induction cs with
  | nil => exact List.not_mem_nil
  | cons c cs ih =>
    rw [List.map_cons, List.mem_cons, not_or] at h
    obtain ⟨own, parents, fields, methods, nested⟩ := c
    rw [fullNamesIn, ClassDecl.fullNames, List.cons_append, List.mem_cons, List.mem_append]
    rintro (he | hn | hr)
    · exact h.1 he
    · exact hdot (dot_mem_fullNamesIn _ nested name hn)
    · exact ih h.2 hr

theorem splitMethodName_class {name : String} {p : String × String} (h : splitMethodName name = some p) :
    '.' ∉ p.1.toList := by
  unfold splitMethodName at h
  dsimp only at h
  split at h
  · cases h
  · cases h
    rw [String.toList_ofList]
    intro hm
    simpa using List.mem_takeWhile_imp hm

namespace ClassTable

variable {t : ClassTable} {es : List (String × ClassInfo)} {name : String}

theorem find?_update_of_not_mem (h : name ∉ es.map Prod.fst) : (t.update ⟨es⟩).find? name = t.find? name := by
  induction es generalizing t with
  | nil => rfl
  | cons e es ih =>
    rw [List.map_cons, List.mem_cons, not_or] at h
    rw [update_cons, ih h.2, find?_insert, if_neg h.1]

/-- a function is attached to a class before or after other classes are registered -/
theorem attach_update {a : Attachment} (ha : a.className ∈ t.names) (he : a.className ∉ es.map Prod.fst) :
    (t.update ⟨es⟩).attach a = (t.attach a).update ⟨es⟩ := by
  unfold attach addMethod
  rw [find?_update_of_not_mem he, insert_update _ ha he]

theorem putAt_of_not_mem {α : Type} {xs : List (String × α)} (h : name ∉ xs.map Prod.fst) (x : α) :
    putAt name x xs = xs ++ [(name, x)] := by
  induction xs with
  | nil => rfl
  | cons p xs ih =>
    rw [List.map_cons, List.mem_cons, not_or] at h
    rw [putAt, if_neg (Ne.symm h.1), ih h.2]
    rfl

theorem empty_update (h : t.Distinct) : empty.update t = t := by
  have happend (es s : List (String × ClassInfo)) (h : (s.map Prod.fst ++ es.map Prod.fst).Nodup) :
      (⟨s⟩ : ClassTable).update ⟨es⟩ = ⟨s ++ es⟩ := by
    induction es generalizing s with
    | nil => rw [List.append_nil]; rfl
    | cons e es ih =>
      rw [List.map_cons, List.append_cons] at h
      have hn : e.1 ∉ s.map Prod.fst := by
        have hs := (List.nodup_append.mp (List.nodup_append.mp h).1).2.2
        exact fun hm => hs e.1 hm e.1 (List.mem_singleton_self _) rfl
      rw [update_cons, insert, putAt_of_not_mem hn, ih, List.append_assoc]
      · rfl
      · rw [List.map_append]
        exact h
  exact happend t.classes [] h

end ClassTable

/-- the class table after the definitions of a file, in order, when the methods of classes and the functions get
cells from given ones -/
def kindTable (cell next : Nat) (t : ClassTable) : List Definition → ClassTable
  | [] => t
  | .classDecl c :: ds => kindTable (cell + c.allMethods.length) next (t.update ⟨c.entries none cell⟩) ds
  | .function f :: ds => kindTable cell (next + 1) ((attachments next [f]).foldl ClassTable.attach t) ds

theorem classNames_sublist (ds : List Definition) :
    ((classesOf ds).map ClassDecl.name).Sublist (boundNames ds) := by
  induction ds with
  | nil => exact .slnil
  | cons d ds ih =>
    cases d with
    | classDecl c => exact ih.cons_cons c.name
    | function f =>
      have hb : (boundNames ds).Sublist (boundNames (.function f :: ds)) :=
        List.Sublist.filterMap _ (List.sublist_cons_self _ _)
      exact ih.trans hb

/-- functions are attached in the order of the file or after all classes, which gives the same table -/
theorem kindTable_eq {before : List String} {ds : List Definition} (ha : attachedAfter before ds = true)
    (hd : (boundNames ds).Nodup) {t : ClassTable}
    (hb : ∀ name ∈ before, name ∈ t.names ∧ name ∉ (classesOf ds).map ClassDecl.name) (cell next : Nat) :
    (attachments next (functionsOf ds)).foldl ClassTable.attachKnown
        (t.update ⟨entriesIn none cell (classesOf ds)⟩) = kindTable cell next t ds := by
  induction ds generalizing before t cell next with
  | nil => rfl
  | cons d ds ih =>
    cases d with
    | classDecl c =>
      rw [classesOf, entriesIn, ClassTable.update_append, functionsOf, kindTable]
      have hn := List.nodup_cons.mp hd
      refine ih ha hn.2 (fun name hm => ?_) _ _
      rcases List.mem_cons.mp hm with rfl | hm
      · refine ⟨(ClassTable.mem_names_update _ _).mpr (.inr ?_), fun hc => ?_⟩
        · rw [ClassDecl.entries_names]
          cases c
          exact List.mem_cons_self
        · exact hn.1 ((classNames_sublist ds).subset hc)
      · have hold := hb name hm
        rw [classesOf, List.map_cons, List.mem_cons, not_or] at hold
        exact ⟨(ClassTable.mem_names_update _ _).mpr (.inl hold.1), hold.2.2⟩
    | function f =>
      rw [attachedAfter, Bool.and_eq_true] at ha
      have hrest : (boundNames ds).Nodup := hd.sublist (List.Sublist.filterMap _ (List.sublist_cons_self _ _))
      rw [classesOf, functionsOf, kindTable, attachments_cons, List.foldl_append]
      rw [attachments]
      cases hs : splitMethodName f.name with
      | none => exact ih ha.2 hrest hb cell (next + 1)
      | some p =>
        rw [hs] at ha
        have hp := hb p.1 (List.contains_iff_mem.mp ha.1)
        have hlater : p.1 ∉ (entriesIn none cell (classesOf ds)).map Prod.fst := by
          rw [entriesIn_names]
          exact not_mem_fullNamesIn (splitMethodName_class hs) hp.2
        have hknown : ((t.update ⟨entriesIn none cell (classesOf ds)⟩).find? p.1).isSome :=
          ClassTable.isSome_find?_iff.mpr ((ClassTable.mem_names_update _ _).mpr (.inl hp.1))
        show List.foldl _ (ClassTable.attachKnown _ ⟨p.1, p.2, next⟩) _ = kindTable _ _ (t.attach ⟨p.1, p.2, next⟩) ds
        rw [ClassTable.attachKnown, if_pos hknown, ClassTable.attach_update hp.1 hlater]
        refine ih ha.2 hrest (fun name hm => ?_) cell (next + 1)
        exact ⟨ClassTable.mem_names_attach.mpr (.inl (hb name hm).1), (hb name hm).2⟩

/-! ## cells -/

section
variable {α : Type} {R : α → Nat → Prop} {n : Nat} {x : α} {xs ys : List α}

/-- items that are related to the numbers from a given one on, in order -/
def Numbered (R : α → Nat → Prop) (n : Nat) (xs : List α) : Prop := ∀ i x, xs[i]? = some x → R x (n + i)

theorem numbered_cons : Numbered R n (x :: xs) ↔ R x n ∧ Numbered R (n + 1) xs := by
  constructor
  · intro h
    refine ⟨h 0 x rfl, fun i y hy => ?_⟩
    have hi := h (i + 1) y hy
    rwa [Nat.add_comm i, ← Nat.add_assoc] at hi
  · rintro ⟨hx, hs⟩ i y hy
    cases i with
    | zero =>
      cases hy
      exact hx
    | succ i =>
      rw [Nat.add_comm i, ← Nat.add_assoc]
      exact hs i y hy

theorem numbered_append : Numbered R n (xs ++ ys) ↔ Numbered R n xs ∧ Numbered R (n + xs.length) ys := by
  induction xs generalizing n with
  | nil =>
    refine ⟨fun h => ⟨fun i x hx => ?_, h⟩, And.right⟩
    cases hx
  | cons x xs ih =>
    rw [List.cons_append, numbered_cons, ih, numbered_cons, and_assoc, List.length_cons, Nat.add_right_comm,
      Nat.add_assoc]

end

/-- the cells of the functions of a file after a call, in the order of the file: the methods of classes get cells
from one on, the functions from another -/
def cellsOf (cell next : Nat) : List Definition → List Nat
  | [] => []
  | .classDecl c :: ds => List.range' cell c.allMethods.length ++ cellsOf (cell + c.allMethods.length) next ds
  | .function _ :: ds => next :: cellsOf cell (next + 1) ds

theorem mem_cellsOf {cell next i : Nat} {ds : List Definition} (h : i ∈ cellsOf cell next ds) :
    cell ≤ i ∧ i < cell + (allMethodsIn (classesOf ds)).length ∨ next ≤ i ∧ i < next + (functionsOf ds).length := by
  induction ds generalizing cell next with
  | nil => cases h
  | cons d ds ih =>
    cases d with
    | classDecl c =>
      rw [classesOf, allMethodsIn_cons, List.length_append, functionsOf]
      rcases List.mem_append.mp h with hr | hs
      · have hb := List.mem_range'_1.mp hr
        omega
      · have hb := ih hs
        omega
    | function f =>
      rw [functionsOf, List.length_cons, classesOf]
      rcases List.mem_cons.mp h with rfl | hs
      · omega
      · have hb := ih hs
        omega

theorem nodup_cellsOf {cell next : Nat} {ds : List Definition}
    (h : cell + (allMethodsIn (classesOf ds)).length ≤ next) : (cellsOf cell next ds).Nodup := by
  induction ds generalizing cell next with
  | nil => exact List.nodup_nil
  | cons d ds ih =>
    cases d with
    | classDecl c =>
      rw [classesOf, allMethodsIn_cons, List.length_append] at h
      refine List.nodup_append.mpr ⟨List.nodup_range', ih (by omega), fun i hi j hj he => ?_⟩
      have hb := List.mem_range'_1.mp hi
      have hr := mem_cellsOf hj
      omega
    | function f =>
      rw [classesOf] at h
      refine List.nodup_cons.mpr ⟨fun hm => ?_, ih (by omega)⟩
      have hr := mem_cellsOf hm
      omega

theorem forall₂_range' {α : Type} {R : Nat → α → Prop} {n : Nat} {xs : List α}
    (h : Numbered (fun x i => R i x) n xs) : List.Forall₂ R (List.range' n xs.length) xs := by
  induction xs generalizing n with
  | nil => exact .nil
  | cons x xs ih =>
    obtain ⟨hx, hs⟩ := numbered_cons.mp h
    exact .cons hx (ih hs)

/-- the functions of a file, in the order of the file, are in these cells -/
theorem forall₂_cellsOf {R : Nat → Method Node → Prop} {cell next : Nat} {ds : List Definition}
    (hm : Numbered (fun m i => R i m) cell (allMethodsIn (classesOf ds)))
    (hf : Numbered (fun m i => R i m) next (functionsOf ds)) :
    List.Forall₂ R (cellsOf cell next ds) (methodsOf ds) := by
  induction ds generalizing cell next with
  | nil => exact .nil
  | cons d ds ih =>
    cases d with
    | classDecl c =>
      rw [classesOf, allMethodsIn_cons, numbered_append] at hm
      exact List.rel_append (forall₂_range' hm.1) (ih hm.2 hf)
    | function f =>
      rw [functionsOf, numbered_cons] at hf
      exact .cons hf.1 (ih hm hf.2)

/-! ## what the functions are found by -/

namespace Bond

variable {B : Bond}

theorem methodCells_rel {a b : Nat} {ms : List (Method Node)}
    (h : Numbered B.functions.Pairs b (List.range' a ms.length)) {made made' : List (String × Nat)}
    (hm : Tables B.functions.Pairs made made') :
    Tables B.functions.Pairs (methodCells a ms made) (methodCells b ms made') := by
  induction ms generalizing a b made made' with
  | nil => exact hm
  | cons m ms ih =>
    obtain ⟨hp, hs⟩ := numbered_cons.mp h
    exact ih hs (hm.putAt m.name hp)

mutual

theorem entries_rel (outer : Option String) : (c : ClassDecl Node) → {a b : Nat} →
    Numbered B.functions.Pairs b (List.range' a c.allMethods.length) →
    Tables B.Class (c.entries outer a) (c.entries outer b)
  | .mk name parents fields methods nested, a, b, h => by
    rw [ClassDecl.allMethods_mk, List.length_append, List.range'_append_1.symm, numbered_append,
      List.length_range'] at h
    rw [ClassDecl.entries, ClassDecl.entries]
    exact .cons ⟨rfl, rfl, rfl, methodCells_rel h.1 .nil⟩ (entriesIn_rel _ nested h.2)

theorem entriesIn_rel (outer : Option String) : (cs : List (ClassDecl Node)) → {a b : Nat} →
    Numbered B.functions.Pairs b (List.range' a (allMethodsIn cs).length) →
    Tables B.Class (entriesIn outer a cs) (entriesIn outer b cs)
  | [], _, _, _ => .nil
  | c :: cs, a, b, h => by
    rw [allMethodsIn_cons, List.length_append, List.range'_append_1.symm, numbered_append, List.length_range'] at h
    rw [entriesIn, entriesIn]
    exact List.rel_append (entries_rel outer c h.1) (entriesIn_rel outer cs h.2)

end

theorem kindTable_rel {a k b : Nat} {ds : List Definition}
    (h : Numbered B.functions.Pairs b (cellsOf a k ds)) {t t' : ClassTable} (ht : B.Classes t t') :
    B.Classes (kindTable a k t ds) (fileTable b t' ds) := by
  induction ds generalizing a k b t t' with
  | nil => exact ht
  | cons d ds ih =>
    cases d with
    | classDecl c =>
      rw [cellsOf, numbered_append, List.length_range'] at h
      exact ih h.2 (ht.update (entries_rel none c h.1))
    | function f =>
      rw [cellsOf, numbered_cons] at h
      refine ih h.2 ?_
      simp only [attachments]
      cases splitMethodName f.name with
      | none => exact ht
      | some p => exact ht.addMethod p.1 p.2 h.1

end Bond

/-! ## members -/

theorem keys_functionMembers (cell : Nat) (ds : List Definition) :
    ((functionMembers cell (functionsOf ds)).map Prod.fst).Sublist (boundNames ds) := by
  induction ds generalizing cell with
  | nil => exact .slnil
  | cons d ds ih =>
    cases d with
    | classDecl c => exact (ih cell).cons c.name
    | function f =>
      have hname : boundNames (.function f :: ds) =
          (Definition.function f).name?.toList ++ boundNames ds := by
        unfold boundNames
        rw [List.filterMap_cons]
        cases (Definition.function f).name? <;> rfl
      rw [functionsOf, functionMembers, hname, Definition.name?]
      cases splitMethodName f.name with
      | none => exact (ih (cell + 1)).cons_cons f.name
      | some p => exact ih (cell + 1)

theorem keys_classMembers (cell : Nat) (cs : List (ClassDecl Node)) :
    (classMembers cell cs).map Prod.fst = cs.map ClassDecl.name := by
  induction cs generalizing cell with
  | nil => rfl
  | cons c cs ih => rw [classMembers, List.map_cons, List.map_cons, ih]

theorem keys_fileMembers (cell constructor : Nat) (ds : List Definition) :
    (fileMembers cell constructor ds).map Prod.fst = boundNames ds := by
  induction ds generalizing cell constructor with
  | nil => rfl
  | cons d ds ih =>
    cases d with
    | classDecl c => exact congrArg (List.cons c.name) (ih _ _)
    | function f =>
      rw [fileMembers, boundNames, List.filterMap_cons, Definition.name?]
      cases splitMethodName f.name with
      | none => exact congrArg (List.cons f.name) (ih _ _)
      | some p => exact ih _ _

/-- **The members of a library** are functions that stand for each other, or constructors of one class. -/
theorem members_rel {R : Nat → Nat → Prop} {a k b r : Nat} {ds : List Definition} (hd : (boundNames ds).Nodup)
    (h : Numbered R b (cellsOf a k ds)) {name : String} {v : Value}
    (hv : (fileMembers b r ds).lookup name = some v) :
    (∃ i j, (functionMembers k (functionsOf ds)).lookup name = some (.function i) ∧ v = .function j ∧ R i j) ∨
      ∃ q c, (functionMembers k (functionsOf ds)).lookup name = none ∧
        (classMembers r (classesOf ds)).lookup name = some (.callable (r + q)) ∧ v = .callable (r + q) ∧
        (classesOf ds)[q]? = some c := by
  induction ds generalizing a k b r with
  | nil => cases hv
  | cons d ds ih =>
    cases d with
    | classDecl c =>
      have hn := List.nodup_cons.mp hd
      rw [cellsOf, numbered_append, List.length_range'] at h
      rw [fileMembers, lookup_cons_eq] at hv
      rw [functionsOf, classesOf, classMembers, lookup_cons_eq]
      split at hv
      · rename_i he
        cases hv
        refine Or.inr ⟨0, c, lookup_eq_none fun hm => ?_, by rw [if_pos he]; rfl, rfl, rfl⟩
        exact hn.1 (he ▸ (keys_functionMembers k ds).subset hm)
      · rename_i hne
        rcases ih hn.2 h.2 hv with hf | ⟨q, c', hf, hc, rfl, hq⟩
        · exact Or.inl hf
        · refine Or.inr ⟨q + 1, c', hf, ?_, ?_, hq⟩
          · rw [if_neg hne, hc, Nat.add_assoc, Nat.add_comm 1]
          · rw [Nat.add_assoc, Nat.add_comm 1]
    | function f =>
      have hrest : (boundNames ds).Nodup := hd.sublist (List.Sublist.filterMap _ (List.sublist_cons_self _ _))
      rw [cellsOf, numbered_cons] at h
      rw [fileMembers] at hv
      rw [functionsOf, classesOf, functionMembers]
      cases hs : splitMethodName f.name with
      | some p =>
        rw [hs] at hv
        exact ih hrest h.2 hv
      | none =>
        rw [hs] at hv
        dsimp only at hv ⊢
        rw [lookup_cons_eq] at hv ⊢
        split at hv
        · rename_i he
          cases hv
          rw [if_pos he]
          exact Or.inl ⟨k, b, rfl, rfl, h.1⟩
        · rename_i hne
          rw [if_neg hne]
          exact ih hrest h.2 hv

/-! ## where members are found -/

namespace Dict

/-- no cell is named by a key, and the cells that values name have a property -/
def Holds (P : Cell → Prop) (d : Dict) : Prop :=
  (∀ k ∈ d.keys, k.cell? = none) ∧ ∀ v ∈ d.values, ∀ c, v.cell? = some c → P c

theorem Holds.putAll {P : Cell → Prop} {d : Dict} (hd : d.Holds P) {ms : List (String × Value)}
    (hm : ∀ p ∈ ms, ∀ c, p.2.cell? = some c → P c) : (d.putAll ms).Holds P := by
  induction ms generalizing d with
  | nil => exact hd
  | cons p ms ih =>
    rw [List.forall_mem_cons] at hm
    refine ih ⟨fun k hk => ?_, fun v hv => ?_⟩ hm.2
    · obtain ⟨e, he, rfl⟩ := List.mem_map.mp hk
      rcases (mem_entries_insert he).1 with hk | hk
      · rw [hk]
        rfl
      · exact hd.1 _ hk
    · obtain ⟨e, he, rfl⟩ := List.mem_map.mp hv
      rcases (mem_entries_insert he).2 with hv | hv
      · rw [hv]
        exact hm.1
      · exact hd.2 _ hv

end Dict

end BraceScript
