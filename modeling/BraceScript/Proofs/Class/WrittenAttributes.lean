import BraceScript.Proofs.Call.ByPlace
import BraceScript.Proofs.Class.Resolution
import BraceScript.Proofs.Exec.Bindings
import Mathlib.Data.List.Nodup
import Mathlib.Data.List.Perm.Subperm

/-!
# Attributes that are written

An assignment to an attribute of an instance puts an entry under its name, whatever the class of the instance says.
Reading looks the name up in the class and its ancestors, and comes to the entry only if one of them declares a field
of that name. So what was written is read back exactly if the field is declared; else reading fails, with a message
that lists the attribute among those that are there.

* `ClassTable.Lineage`    the classes in which the attributes of an instance are looked up
* `ClassTable.Declares`   one of them declares a field
* `ClassTable.lookup?`    what an attribute of an instance names in them
* `ClassTable.exists_methodNames?`   the names of the methods in them, in some order
* `World.written`         the state after an entry was put
* `attribute_written`     what is read after an assignment
-/

namespace BraceScript

open Exec

/-! ## the classes of an instance -/

namespace ClassTable

/-- the classes in which the attributes of an instance are looked up, by the entry that names its class -/
def Lineage (t : ClassTable) (type : Value) (owner : String) (c : ClassInfo) : Prop :=
  ∃ className, type = .str className ∧ t.Reaches className owner ∧ t.find? owner = some c

def Declares (t : ClassTable) (type : Value) (attr : String) : Prop :=
  ∃ owner c, t.Lineage type owner c ∧ c.HasField attr

/-- what an attribute of an instance names in its classes -/
def lookup? (t : ClassTable) (type : Value) (attr : String) : Option Found :=
  match type with
  | .str className => t.search className attr
  | _ => none

variable {t : ClassTable} {type : Value} {attr : String}

theorem exists_type {f : Found} (h : t.lookup? type attr = some f) :
    ∃ className, type = .str className ∧ t.search className attr = some f := by
  cases type with
  | str className => exact ⟨className, rfl, h⟩
  | _ => cases h

theorem isSome_lookup?_iff : (t.lookup? type attr).isSome ↔
    ∃ owner c, t.Lineage type owner c ∧ (c.HasMethod owner attr ∨ c.HasField attr) := by
  constructor
  · intro h
    obtain ⟨f, hf⟩ := Option.isSome_iff_exists.1 h
    obtain ⟨className, rfl, hs⟩ := exists_type hf
    obtain ⟨owner, c, path, hc, hhas⟩ := (isSome_search_iff className).1 (Option.isSome_iff_exists.2 ⟨f, hs⟩)
    exact ⟨owner, c, ⟨className, rfl, path, hc⟩, hhas⟩
  · rintro ⟨owner, c, ⟨className, rfl, path, hc⟩, hhas⟩
    exact (isSome_search_iff className).2 ⟨owner, c, path, hc, hhas⟩

section
variable (hm : ∀ owner c, t.Lineage type owner c → ¬ c.HasMethod owner attr)
include hm

/-- an attribute without a method names at most a field -/
theorem eq_field_of_lookup? {f : Found} (h : t.lookup? type attr = some f) : f = .field := by
  obtain ⟨className, rfl, hs⟩ := exists_type h
  obtain ⟨name, hn, owner, c, path, hc, ho⟩ := (searches_search className).exists_owner hs
  obtain rfl := List.mem_singleton.1 hn
  have hgives := ClassInfo.gives_of_own? ho
  cases f with
  | field => rfl
  | method cell =>
    have hnone := ClassInfo.method?_eq_none_iff.2 (hm owner c ⟨name, rfl, reaches_of_leavesTo path, hc⟩)
    rw [ClassInfo.Gives, hnone] at hgives
    cases hgives

theorem lookup?_of_declares (h : t.Declares type attr) : t.lookup? type attr = some .field := by
  obtain ⟨owner, c, hl, hf⟩ := h
  obtain ⟨f, hf⟩ := Option.isSome_iff_exists.1 (isSome_lookup?_iff.2 ⟨owner, c, hl, .inr hf⟩)
  rw [hf, eq_field_of_lookup? hm hf]

theorem lookup?_of_not_declares (h : ¬ t.Declares type attr) : t.lookup? type attr = none := by
  rw [← Option.not_isSome_iff_eq_none, isSome_lookup?_iff]
  rintro ⟨owner, c, hl, hmethod | hfield⟩
  · exact hm owner c hl hmethod
  · exact h ⟨owner, c, hl, hfield⟩

end

/-! ## the names of methods -/

section
variable {m : String} {names r : List String}

theorem mem_foldl_addName (xs names : List String) : m ∈ xs.foldl addName names ↔ m ∈ names ∨ m ∈ xs := by
  induction xs generalizing names with
  | nil => simp
  | cons x xs ih =>
    have hadd : m ∈ addName names x ↔ m ∈ names ∨ m = x := by
      unfold addName
      split
      · rename_i hx
        have hx : x ∈ names := by simpa using hx
        exact ⟨.inl, fun h => h.elim id fun e => e ▸ hx⟩
      · rw [List.mem_append, List.mem_singleton]
    rw [List.foldl_cons, ih, hadd, List.mem_cons, or_assoc]

theorem nodup_foldl_addName (xs : List String) (h : names.Nodup) : (xs.foldl addName names).Nodup := by
  induction xs generalizing names with
  | nil => exact h
  | cons x xs ih =>
    refine ih ?_
    unfold addName
    split
    · exact h
    · rename_i hx
      refine List.nodup_append.2 ⟨h, List.nodup_singleton x, fun a ha b hb he => hx ?_⟩
      rw [List.mem_singleton.1 hb] at he
      exact List.contains_iff_mem.2 (he ▸ ha)

/-- names that are collected from one class after the other -/
theorem mem_foldlM {f : List String → String → Option (List String)} {owns : String → Prop} {ps : List String}
    (hf : ∀ p ∈ ps, ∀ names r, f names p = some r → (m ∈ r ↔ m ∈ names ∨ owns p))
    (h : ps.foldlM f names = some r) : m ∈ r ↔ m ∈ names ∨ ∃ p ∈ ps, owns p := by
  induction ps generalizing names with
  | nil =>
    cases h
    simp
  | cons p ps ih =>
    rw [List.foldlM_cons] at h
    obtain ⟨names', hp, h⟩ := Option.bind_eq_some_iff.1 h
    rw [List.forall_mem_cons] at hf
    rw [ih hf.2 h, hf.1 names names' hp, or_assoc]
    simp

theorem nodup_foldlM {f : List String → String → Option (List String)} {ps : List String}
    (hf : ∀ names p r, f names p = some r → names.Nodup → r.Nodup) (hn : names.Nodup)
    (h : ps.foldlM f names = some r) : r.Nodup := by
  induction ps generalizing names with
  | nil =>
    cases h
    exact hn
  | cons p ps ih =>
    rw [List.foldlM_cons] at h
    obtain ⟨names', hp, h⟩ := Option.bind_eq_some_iff.1 h
    exact ih (hf names p names' hp hn) h

theorem exists_foldlM {f : List String → String → Option (List String)} {ps : List String}
    (hf : ∀ p ∈ ps, ∀ names, ∃ r, f names p = some r) (names : List String) : ∃ r, ps.foldlM f names = some r := by
  induction ps generalizing names with
  | nil => exact ⟨names, rfl⟩
  | cons p ps ih =>
    rw [List.forall_mem_cons] at hf
    obtain ⟨r, hr⟩ := hf.1 names
    rw [List.foldlM_cons, hr]
    exact ih hf.2 r

/-- the methods of a class are collected from the classes that it reaches -/
theorem mem_collectMethods {fuel : Nat} {className : String} (h : t.collectMethods fuel names className = some r) :
    m ∈ r ↔ m ∈ names ∨ ∃ owner c, t.Lineage (.str className) owner c ∧ m ∈ c.methods.map Prod.fst := by
  induction fuel generalizing names className r with
  | zero => cases h
  | succ fuel ih =>
    have hroot {owner : String} {c : ClassInfo} : t.Lineage (.str className) owner c ↔
        className = owner ∧ t.find? owner = some c ∨
          ∃ parent, t.Parent className parent ∧ t.Lineage (.str parent) owner c := by
      simp [Lineage, Reaches, Relation.ReflTransGen.cases_head_iff (a := className), or_and_right,
        ← exists_and_right, and_assoc]
    rw [collectMethods] at h
    cases hc : t.find? className with
    | none =>
      simp only [hc] at h
      cases h
      refine ⟨.inl, fun h => h.elim id ?_⟩
      rintro ⟨owner, c, hl, -⟩
      rcases hroot.1 hl with ⟨rfl, hc'⟩ | ⟨parent, ⟨c', hc', -⟩, -⟩
      · cases hc.symm.trans hc'
      · cases hc.symm.trans hc'
    | some c =>
      simp only [hc] at h
      rw [mem_foldlM (fun p _ names r hr => ih hr) h, mem_foldl_addName, or_assoc]
      refine or_congr_right ⟨?_, ?_⟩
      · rintro (hm | ⟨p, hp, owner, c', hl, hm⟩)
        · exact ⟨className, c, hroot.2 (.inl ⟨rfl, hc⟩), hm⟩
        · exact ⟨owner, c', hroot.2 (.inr ⟨p, ⟨c, hc, hp⟩, hl⟩), hm⟩
      · rintro ⟨owner, c', hl, hm⟩
        rcases hroot.1 hl with ⟨rfl, hc'⟩ | ⟨p, ⟨c₁, hc₁, hp⟩, hl⟩
        · obtain rfl := Option.some.inj (hc.symm.trans hc')
          exact .inl hm
        · obtain rfl := Option.some.inj (hc.symm.trans hc₁)
          exact .inr ⟨p, hp, owner, c', hl, hm⟩

theorem nodup_collectMethods {fuel : Nat} {className : String} (h : t.collectMethods fuel names className = some r)
    (hn : names.Nodup) : r.Nodup := by
  induction fuel generalizing names className r with
  | zero => cases h
  | succ fuel ih =>
    rw [collectMethods] at h
    cases hc : t.find? className with
    | none =>
      simp only [hc] at h
      cases h
      exact hn
    | some c =>
      simp only [hc] at h
      exact nodup_foldlM (fun _ _ _ => ih) (nodup_foldl_addName _ hn) h

/-- a way through the parents that passes no class twice passes no more classes than there are -/
theorem exists_collectMethods (hac : t.Acyclic) {fuel : Nat} (path : List String) (className : String)
    (hn : path.Nodup) (hk : path ⊆ t.classes.map Prod.fst)
    (hp : ∀ name ∈ path, Relation.TransGen t.Parent name className) (hf : t.classes.length < fuel + path.length)
    (names : List String) : ∃ r, t.collectMethods fuel names className = some r := by
  induction fuel generalizing path className names with
  | zero =>
    have hle := (List.subperm_of_subset hn hk).length_le
    rw [List.length_map] at hle
    omega
  | succ fuel ih =>
    rw [collectMethods]
    cases hc : t.find? className with
    | none => exact ⟨names, rfl⟩
    | some c =>
      have hmem : className ∈ t.classes.map Prod.fst :=
        Classical.byContradiction fun hm => by cases hc.symm.trans (lookup_eq_none hm)
      refine exists_foldlM (fun parent hparent => ?_) _
      have hedge : t.Parent className parent := ⟨c, hc, hparent⟩
      refine ih (className :: path) parent (List.nodup_cons.2 ⟨fun h => hac className (hp className h), hn⟩)
        (List.cons_subset.2 ⟨hmem, hk⟩) ?_ (by rw [List.length_cons]; omega)
      exact List.forall_mem_cons.2 ⟨.single hedge, fun name h => (hp name h).tail hedge⟩

/-- **The names of the methods of an instance** are those of all its classes, each once, where no class is its own
ancestor. -/
theorem exists_methodNames? (hac : t.Acyclic) (className : String) :
    ∃ names, t.methodNames? className = some names ∧ names.Nodup ∧
      ∀ m, m ∈ names ↔ ∃ owner c, t.Lineage (.str className) owner c ∧ m ∈ c.methods.map Prod.fst := by
  obtain ⟨names, h⟩ := exists_collectMethods hac [] className List.nodup_nil (List.nil_subset _) (List.forall_mem_nil _)
    (Nat.lt_succ_self _) []
  refine ⟨names, h, nodup_collectMethods h List.nodup_nil, fun m => ?_⟩
  rw [mem_collectMethods h]
  simp only [List.not_mem_nil, false_or]

end

end ClassTable

/-! ## reading -/

namespace Exec

variable {w : World} {cell : Nat} {type : Value} {attr : String}

theorem instanceAttribute_method {function : Nat} (h : w.classes.lookup? type attr = some (.method function)) :
    instanceAttribute cell type attr w =
      .ok (.callable w.callables.size) { w with callables := w.callables.push (.method function (.dict cell)) } := by
  obtain ⟨className, rfl, hs⟩ := ClassTable.exists_type h
  have hkey : w.unhashable? (.str className) = none := rfl
  rw [instanceAttribute]
  simp only [checkKey, bind_run, get_run, hkey, pure_run, hs]
  rfl

theorem instanceAttribute_field (h : w.classes.lookup? type attr = some .field) :
    instanceAttribute cell type attr w = .ok (((w.dict cell).get? attr).getD .null) w := by
  obtain ⟨className, rfl, hs⟩ := ClassTable.exists_type h
  have hkey : w.unhashable? (.str className) = none := rfl
  rw [instanceAttribute]
  simp only [checkKey, bind_run, get_run, hkey, pure_run, hs]

theorem instanceAttribute_other (h : w.classes.lookup? type attr = none) (hk : w.unhashable? type = none) :
    instanceAttribute cell type attr w = otherAttribute cell type attr w := by
  rw [instanceAttribute]
  simp only [checkKey, bind_run, get_run, hk, pure_run]
  cases type with
  | str className =>
    have hs : w.classes.search className attr = none := h
    simp only [hs]
  | _ => rfl

theorem memberNames_ok {className : String} {names : List String} {u : World}
    (h : memberNames (.str className) w = .ok names u) : u = w ∧ w.classes.methodNames? className = some names := by
  rw [memberNames, bind_run, get_run] at h
  cases hn : w.classes.methodNames? className with
  | none =>
    simp only [hn] at h
    cases h
  | some found =>
    simp only [hn] at h
    cases h
    exact ⟨rfl, rfl⟩

theorem memberNames_run {className : String} {names : List String}
    (h : w.classes.methodNames? className = some names) : memberNames (.str className) w = .ok names w := by
  rw [memberNames, bind_run, get_run]
  simp only [h, pure_run]

theorem instanceAttribute_file {m : FileMethod} {file : Value} {names : List String}
    (h : w.classes.lookup? (.str "__file__") attr = none) (hn : w.classes.methodNames? "__file__" = some names)
    (hfile : (w.dict cell).get? "__file__" = some file) (hm : FileMethod.ofName? attr = some m) :
    instanceAttribute cell (.str "__file__") attr w =
      .ok (.callable w.callables.size) { w with callables := w.callables.push (.fileMethod m file) } := by
  rw [instanceAttribute_other h rfl, otherAttribute, bind_run, memberNames_run hn]
  simp only [if_true, bind_run, get_run, hfile, hm]
  rfl

/-- **What an instance gives for an attribute**: a method that is bound to it, the entry of a field, or, for an
instance that stands for a file, a method of the file. -/
theorem instanceAttribute_ok {r : Value} {u : World} (h : instanceAttribute cell type attr w = .ok r u) :
    (∃ function, w.classes.lookup? type attr = some (.method function) ∧ r = .callable w.callables.size ∧
      u = { w with callables := w.callables.push (.method function (.dict cell)) }) ∨
    (w.classes.lookup? type attr = some .field ∧ r = ((w.dict cell).get? attr).getD .null ∧ u = w) ∨
    (w.classes.lookup? type attr = none ∧ type = .str "__file__" ∧ ∃ names m file,
      w.classes.methodNames? "__file__" = some names ∧ FileMethod.ofName? attr = some m ∧
      (w.dict cell).get? "__file__" = some file ∧ r = .callable w.callables.size ∧
      u = { w with callables := w.callables.push (.fileMethod m file) }) := by
  cases hl : w.classes.lookup? type attr with
  | some f =>
    cases f with
    | method function =>
      rw [instanceAttribute_method hl] at h
      cases h
      exact .inl ⟨function, rfl, rfl, rfl⟩
    | field =>
      rw [instanceAttribute_field hl] at h
      cases h
      exact .inr (.inl ⟨rfl, rfl, rfl⟩)
  | none =>
    cases hk : w.unhashable? type with
    | some kind =>
      rw [instanceAttribute, bind_run, checkKey, bind_run, get_run] at h
      simp only [hk] at h
      cases h
    | none =>
      rw [instanceAttribute_other hl hk] at h
      by_cases hfile : type = .str "__file__"
      · subst hfile
        rw [otherAttribute] at h
        obtain ⟨names, w₁, hn, hother⟩ := bind_ok h
        obtain ⟨rfl, hn⟩ := memberNames_ok hn
        rw [if_pos rfl, bind_run, get_run] at hother
        cases hf : (w₁.dict cell).get? "__file__" with
        | none =>
          simp only [hf] at hother
          cases hother
        | some file =>
          cases hm : FileMethod.ofName? attr with
          | none =>
            simp only [hf, hm] at hother
            exact absurd hother (noMember_ne_ok _ _ _ _ _ _ _)
          | some m =>
            simp only [hf, hm] at hother
            cases hother
            exact .inr (.inr ⟨rfl, rfl, names, m, file, hn, rfl, rfl, rfl, rfl⟩)
      · exact absurd h (otherAttribute_ne_ok cell hfile attr w r u)

theorem mapM_shown (ks : List String) (w : World) :
    (ks.map Value.str).mapM shown w = .ok (ks.map Text.quoted) w := by
  induction ks with
  | nil => rfl
  | cons k ks ih =>
    have hk : shown (.str k) w = .ok (Text.quoted k) w := rfl
    rw [List.map_cons, List.mapM_cons, bind_run, hk]
    dsimp only
    rw [bind_run, ih]
    rfl

/-- the message for an attribute that an instance does not have lists its entries and the methods of its classes -/
theorem otherAttribute_texts {ks names : List String} {className : String} (h : (w.dict cell).keys = ks.map .str)
    (hn : w.classes.methodNames? className = some names) (hfile : className ≠ "__file__") (attr : String) :
    otherAttribute cell (.str className) attr w = .error (.fault (.noMember className attr
      ("[" ++ commaSeparated ((ks ++ names).map Text.quoted) ++ "]"))) w := by
  have hplain : plain (.str className) w = .ok className w := rfl
  rw [otherAttribute, bind_run, memberNames_run hn]
  dsimp only
  rw [if_neg (mt Value.str.inj hfile), noMember, bind_run, get_run]
  dsimp only
  rw [h, bind_run, mapM_shown]
  dsimp only
  rw [bind_run, hplain, List.map_append]
  rfl

end Exec

/-! ## writing -/

namespace World

/-- the state after an entry was put into a dictionary -/
def written (w : World) (cell : Nat) (attr : String) (v : Value) : World :=
  { w with dicts := w.dicts.modify cell (·.insert (.str attr) v) }

variable {w : World} {cell : Nat} {type : Value}

/-- a dictionary with an entry is there -/
theorem lt_size_of_get? {name : String} {v : Value} (h : (w.dict cell).get? name = some v) :
    cell < w.dicts.size := by
  refine Nat.lt_of_not_le fun hle => ?_
  rw [dict, Array.getD_eq_getD_getElem?, Array.getElem?_eq_none hle] at h
  cases h

theorem get?_written (h : (w.dict cell).get? "__type__" = some type) (attr other : String) (v : Value) :
    ((w.written cell attr v).dict cell).get? other = if other = attr then some v else (w.dict cell).get? other := by
  have hlt := lt_size_of_get? h
  have hd : (w.written cell attr v).dict cell = (w.dict cell).insert (.str attr) v := by
    show (w.dicts.modify cell _).getD cell .empty = _
    rw [Array.getD_eq_getD_getElem?, Array.getElem?_modify, if_pos rfl, World.dict, Array.getD_eq_getD_getElem?,
      Array.getElem?_eq_getElem hlt]
    rfl
  rw [hd, Dict.get?_insert]

end World

section
variable {w : World} {cell : Nat} {type v : Value} {attr : String}

theorem read_written_iff (htype : (w.dict cell).get? "__type__" = some type) (hattr : attr ≠ "__type__")
    (hm : ∀ owner c, w.classes.Lineage type owner c → ¬ c.HasMethod owner attr) :
    getAttribute (.dict cell) attr (w.written cell attr v) = .ok v (w.written cell attr v) ↔
      w.classes.Declares type attr := by
  have htype' : ((w.written cell attr v).dict cell).get? "__type__" = some type := by
    rw [World.get?_written htype, if_neg hattr.symm, htype]
  rw [getAttribute_instance htype']
  constructor
  · intro h
    refine Classical.not_not.1 fun hd => ?_
    have hnone := ClassTable.lookup?_of_not_declares hm hd
    rcases instanceAttribute_ok h with ⟨function, hl, -⟩ | ⟨hl, -⟩ | ⟨-, -, names, m, file, -, -, -, -, hu⟩
    · cases hl.symm.trans hnone
    · cases hl.symm.trans hnone
    · -- a method of a file is a new cell
      have hsize := congrArg (·.callables.size) hu
      simp at hsize
  · intro hd
    have hl : (w.written cell attr v).classes.lookup? type attr = some .field := ClassTable.lookup?_of_declares hm hd
    rw [instanceAttribute_field hl, World.get?_written htype, if_pos rfl]
    rfl

/-- an attribute that could be read is read as before, unless it is a method of the file that was written -/
theorem read_written_of_ne (htype : (w.dict cell).get? "__type__" = some type) (hattr : attr ≠ "__type__")
    {other : String} (hne : other ≠ attr) {r : Value} {u : World}
    (h : getAttribute (.dict cell) other w = .ok r u) :
    getAttribute (.dict cell) other (w.written cell attr v) = .ok r (u.written cell attr v) ∨
      type = .str "__file__" ∧ attr = "__file__" ∧ ∃ m, FileMethod.ofName? other = some m ∧
        getAttribute (.dict cell) other (w.written cell attr v) =
          .ok r { w.written cell attr v with callables := w.callables.push (.fileMethod m v) } := by
  have htype' : ((w.written cell attr v).dict cell).get? "__type__" = some type := by
    rw [World.get?_written htype, if_neg hattr.symm, htype]
  rw [getAttribute_instance htype] at h
  rw [getAttribute_instance htype']
  rcases instanceAttribute_ok h with ⟨function, hl, rfl, rfl⟩ | ⟨hl, rfl, rfl⟩ | ⟨hl, rfl, names, m, file, hn, hm, hf,
    rfl, rfl⟩
  · left
    exact instanceAttribute_method hl
  · left
    have hl' : (u.written cell attr v).classes.lookup? type other = some .field := hl
    rw [instanceAttribute_field hl', World.get?_written htype, if_neg hne]
  · by_cases ha : attr = "__file__"
    · right
      have hf' : ((w.written cell attr v).dict cell).get? "__file__" = some v := by
        rw [World.get?_written htype, if_pos ha.symm]
      exact ⟨rfl, ha, m, hm, instanceAttribute_file hl hn hf' hm⟩
    · left
      have hf' : ((w.written cell attr v).dict cell).get? "__file__" = some file := by
        rw [World.get?_written htype, if_neg (Ne.symm ha), hf]
      exact instanceAttribute_file hl hn hf' hm

/-- what is written to an attribute without a field is not read, but the message lists it -/
theorem read_written_undeclared (htype : (w.dict cell).get? "__type__" = some type) (hattr : attr ≠ "__type__")
    (hm : ∀ owner c, w.classes.Lineage type owner c → ¬ c.HasMethod owner attr)
    (hd : ¬ w.classes.Declares type attr) (hfile : type ≠ .str "__file__") :
    (∀ r u, getAttribute (.dict cell) attr (w.written cell attr v) ≠ .ok r u) ∧
    ∀ className (ks : List String), type = .str className →
      ((w.written cell attr v).dict cell).keys = ks.map .str → attr ∈ ks ∧ (w.classes.Acyclic → ∃ names, names.Nodup ∧
        (∀ m, m ∈ names ↔ ∃ owner c, w.classes.Lineage type owner c ∧ m ∈ c.methods.map Prod.fst) ∧
        getAttribute (.dict cell) attr (w.written cell attr v) =
          .error (.fault (.noMember className attr ("[" ++ commaSeparated ((ks ++ names).map Text.quoted) ++ "]")))
            (w.written cell attr v)) := by
  have htype' : ((w.written cell attr v).dict cell).get? "__type__" = some type := by
    rw [World.get?_written htype, if_neg hattr.symm, htype]
  have hl : (w.written cell attr v).classes.lookup? type attr = none := ClassTable.lookup?_of_not_declares hm hd
  rw [getAttribute_instance htype']
  constructor
  · intro r u h
    rcases instanceAttribute_ok h with ⟨function, hl', -⟩ | ⟨hl', -⟩ | ⟨-, hfile', -⟩
    · cases hl'.symm.trans hl
    · cases hl'.symm.trans hl
    · exact hfile hfile'
  · rintro className ks rfl hks
    constructor
    · have hget : ((w.written cell attr v).dict cell).get? attr = some v := by
        rw [World.get?_written htype, if_pos rfl]
      obtain ⟨j, hj⟩ := Dict.getElem?_of_get? hget
      have hkey : Value.str attr ∈ ((w.written cell attr v).dict cell).keys :=
        List.mem_map.2 ⟨_, List.mem_of_getElem? hj, rfl⟩
      rw [hks] at hkey
      obtain ⟨k, hk, he⟩ := List.mem_map.1 hkey
      obtain rfl := Value.str.inj he
      exact hk
    · intro hac
      obtain ⟨names, hn, hnodup, hnames⟩ := ClassTable.exists_methodNames? hac className
      refine ⟨names, hnodup, hnames, ?_⟩
      rw [instanceAttribute_other hl rfl]
      exact otherAttribute_texts hks hn (mt (congrArg _) hfile) attr

end

/-! ## assignments -/

theorem exec_getAttr {k s : Nat} {e : Node} {w u : World} {object : Value}
    (he : (machine k).exec e s w = .ok object u) (attr : String) :
    (machine (k + 1)).exec (.getAttr e attr) s w = getAttribute object attr u := by
  show ((machine k).exec e s >>= fun o => getAttribute o attr) w = _
  rw [bind_run, he]

/-- **What is read after an assignment to an attribute** of an instance, where no class of the instance has a method
for the attribute. The assignment gives the value and puts an entry, and changes nothing else. The attribute then has
this value exactly if a class of the instance declares the field. If none does, and the instance does not stand for a
file, reading the attribute gives nothing; where no class is its own ancestor, the message lists it among the
attributes that are there: the entries of the instance, and the methods of its classes in some order. Every other
attribute that could be read before is read as before, with one exception: the methods of a file are those of the
file that was written last. -/
theorem attribute_written {n s cell : Nat} {object value : Node} {attr : String} {type v : Value}
    {w w₁ w₂ : World} (ho : (machine n).exec object s w = .ok (.dict cell) w₁)
    (hv : (machine n).exec value s w₁ = .ok v w₂) (htype : (w₂.dict cell).get? "__type__" = some type)
    (hattr : attr ≠ "__type__") (hmethod : ∀ owner c, w₂.classes.Lineage type owner c → ¬ c.HasMethod owner attr) :
    let u := w₂.written cell attr v
    (machine (n + 1)).exec (.setAttr object attr value) s w = .ok v u ∧
    ∀ (k s' : Nat) (e : Node), (machine k).exec e s' u = .ok (.dict cell) u →
      let reads := fun name => (machine (k + 1)).exec (.getAttr e name) s'
      (reads attr u = .ok v u ↔ w₂.classes.Declares type attr) ∧
      (¬ w₂.classes.Declares type attr → type ≠ .str "__file__" →
        (∀ r u', reads attr u ≠ .ok r u') ∧
        ∀ className (ks : List String), type = .str className → (u.dict cell).keys = ks.map .str →
          attr ∈ ks ∧ (w₂.classes.Acyclic → ∃ names, names.Nodup ∧
            (∀ m, m ∈ names ↔ ∃ owner c, w₂.classes.Lineage type owner c ∧ m ∈ c.methods.map Prod.fst) ∧
            reads attr u = .error (.fault (.noMember className attr
              ("[" ++ commaSeparated ((ks ++ names).map Text.quoted) ++ "]"))) u)) ∧
      ((machine k).exec e s' w₂ = .ok (.dict cell) w₂ → ∀ other r u', other ≠ attr →
        reads other w₂ = .ok r u' →
          reads other u = .ok r (u'.written cell attr v) ∨
          type = .str "__file__" ∧ attr = "__file__" ∧ ∃ m, FileMethod.ofName? other = some m ∧
            reads other u = .ok r { u with callables := w₂.callables.push (.fileMethod m v) }) := by
  intro u
  constructor
  · show ((machine n).exec object s >>= fun o => (machine n).exec value s >>= fun x =>
      putAttribute object o attr x >>= fun _ => pure x) w = _
    rw [bind_run, ho]
    dsimp only
    rw [bind_run, hv]
    rfl
  · intro k s' e he reads
    have hreads : ∀ name, reads name u = getAttribute (.dict cell) name u := fun name => exec_getAttr he name
    refine ⟨?_, ?_, ?_⟩
    · rw [hreads]
      exact read_written_iff htype hattr hmethod
    · rw [hreads]
      exact read_written_undeclared htype hattr hmethod
    · intro he' other r u' hne hr
      rw [hreads]
      rw [show reads other w₂ = getAttribute (.dict cell) other w₂ from exec_getAttr he' other] at hr
      exact read_written_of_ne htype hattr hne hr

theorem ClassTable.Lineage.eq_of_root {t : ClassTable} {className owner : String} {c c' : ClassInfo}
    (h : t.Lineage (.str className) owner c') (hc : t.find? className = some c) (hp : c.parents.getD [] = []) :
    owner = className ∧ c' = c := by
  obtain ⟨_, he, path, hc'⟩ := h
  obtain rfl := Value.str.inj he
  rcases Relation.ReflTransGen.cases_head path with rfl | ⟨parent, ⟨c₁, hc₁, hm⟩, -⟩
  · exact ⟨rfl, Option.some.inj (hc'.symm.trans hc)⟩
  · obtain rfl := Option.some.inj (hc.symm.trans hc₁)
    rw [hp] at hm
    cases hm

/-- after `p.z = "r"` the instance `p` of a class with the fields `x` and `y` has no attribute `z`, and `x` is as it
was -/
theorem attribute_written_undeclared :
    let u := (World.sampleClass []).written 0 "z" (.str "r")
    (machine 2).exec (.setAttr (.var "p") "z" (.str "r")) 0 (World.sampleClass []) = .ok (.str "r") u ∧
    (machine 2).exec (.getAttr (.var "p") "z") 0 u = .error (.fault (.noMember "P" "z"
      "['__type__', 'x', 'y', 'z', 'self.m']")) u ∧
    (machine 2).exec (.getAttr (.var "p") "x") 0 u = .ok .null u := by
  have hclass : (World.sampleClass []).classes.find? "P" =
      some ⟨[("x", none), ("y", none)], some [], [("self.m", 0)]⟩ := rfl
  have hmethod : ∀ owner c, (World.sampleClass []).classes.Lineage (.str "P") owner c → ¬ c.HasMethod owner "z" := by
    rintro owner c hl ⟨key, hk, cell, hm⟩
    obtain ⟨rfl, rfl⟩ := hl.eq_of_root hclass rfl
    obtain ⟨rfl, -⟩ : key = "self.m" ∧ cell = 0 := by simpa using hm
    revert hk
    decide
  have hdeclares : ¬ (World.sampleClass []).classes.Declares (.str "P") "z" := by
    rintro ⟨owner, c, hl, value, hf⟩
    obtain ⟨-, rfl⟩ := hl.eq_of_root hclass rfl
    simp at hf
  have ho : (machine 1).exec (.var "p") 0 (World.sampleClass []) = .ok (.dict 0) (World.sampleClass []) := rfl
  have hv : (machine 1).exec (.str "r") 0 (World.sampleClass []) = .ok (.str "r") (World.sampleClass []) := rfl
  obtain ⟨hset, hread⟩ := attribute_written ho hv rfl (by decide) hmethod
  obtain ⟨-, hlost, hkept⟩ := hread 1 0 (.var "p") rfl
  have hac : (World.sampleClass []).classes.Acyclic := by
    refine ClassTable.acyclic_of_rank (fun _ => 0) ?_
    rintro child parent ⟨c, hc, hp⟩
    obtain ⟨rfl, rfl⟩ : child = "P" ∧ c = ⟨[("x", none), ("y", none)], some [], [("self.m", 0)]⟩ := by
      simpa [World.sampleClass] using mem_of_lookup hc
    cases hp
  refine ⟨hset, ?_, ?_⟩
  · obtain ⟨names, hnodup, hnames, hr⟩ :=
      ((hlost hdeclares (by decide)).2 "P" ["__type__", "x", "y", "z"] rfl rfl).2 hac
    have hone : names = ["self.m"] := by
      refine List.perm_singleton.1 ((List.perm_ext_iff_of_nodup hnodup (List.nodup_singleton _)).2 fun m => ?_)
      rw [hnames]
      constructor
      · rintro ⟨owner, c, hl, hm⟩
        obtain ⟨-, rfl⟩ := hl.eq_of_root hclass rfl
        exact hm
      · exact fun hm => ⟨"P", _, ⟨"P", rfl, .refl, hclass⟩, hm⟩
    subst hone
    refine hr.trans ?_
    have htext : "[" ++ commaSeparated ((["__type__", "x", "y", "z"] ++ ["self.m"]).map Text.quoted) ++ "]" =
        "['__type__', 'x', 'y', 'z', 'self.m']" := by decide +kernel
    rw [htext]
  · rcases hkept rfl "x" .null _ (by decide) rfl with h | ⟨-, h, -⟩
    · exact h
    · exact absurd h (by decide)

end BraceScript
