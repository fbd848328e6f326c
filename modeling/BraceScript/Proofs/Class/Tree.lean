import BraceScript.Proofs.Library.Bond
import BraceScript.Proofs.Parse.Progress
import BraceScript.Proofs.Token.Segments

/-!
# The tree of a class

A class statement can have classes inside it, to any depth. All of them are registered in one flat table, each under
its name with the names of the classes around it before it and points between them. A name has no point, so a class
can be told from its dotted name, and no class of the tree takes the place of another.

* `ClassDecl.Pointless`     the names of the classes that are read have no points
* `ClassDecl.tree`          the classes of a tree with the paths to them
* `ClassDecl.nodup_dotted`  their dotted names are different
* `ClassDecl.exists_entry`  each has its entry
* `lookup_methodCells`      the methods of an entry
* `class_tree_registered`   what a class statement changes
-/

namespace BraceScript

open Exec

/-! ## names have no points -/

namespace Token

theorem mem_of_mem_stripMark {mark c : Char} {cs : List Char} (h : c ∈ stripMark mark cs) : c ∈ cs := by
  rw [stripMark, List.mem_reverse] at h
  have hrest := List.mem_reverse.1 ((List.dropWhile_suffix _).subset h)
  exact (List.dropWhile_suffix _).subset hrest

theorem point_notMem_ident {before : Option Char} {cs : List Char} {t : Token} (ht : t ∈ scan 0 before cs)
    (hk : t.kind = .ident) : '.' ∉ t.text.toList := by
  obtain ⟨x, -, htext, hm⟩ := exists_lexeme ht
  rw [hk] at hm
  intro hp
  rw [htext, textOf, String.toList_ofList] at hp
  have hword := isWord_of_isName hm '.' (mem_of_mem_stripMark (mem_of_mem_stripMark hp))
  revert hword
  decide

end Token

/-- the account that counts nothing, for tokens with names without points -/
def Ledger.pointless : Ledger Unit :=
  { Ledger.free with admits := fun t => t.kind = .ident → '.' ∉ t.text.toList }

def ClassDecl.Pointless (c : ClassDecl Node) : Prop := ∀ d ∈ c.classes, '.' ∉ d.name.toList

theorem ClassDecl.pointless_of_read {k : Nat} {source : String} {ts rest : List Token} {c : ClassDecl Node}
    (hts : ts <:+ tokenize source) (hk : ts.length ≤ k)
    (hread : Parse.classDecl (Parse.grammar k) ts = .ok (c, rest)) : c.Pointless := by
  have hin : Parse.Within Ledger.pointless (k + 1) ts :=
    ⟨Nat.lt_succ_of_le hk, fun _ ht => Token.point_notMem_ident (hts.subset ht)⟩
  have he := Parse.meets_classDecl (Parse.grammar_meets Ledger.pointless k) ts hin
  rw [hread] at he
  cases he with
  | ok _ hc _ => exact fun d hd => hc.2 d hd rfl

/-! ## the tree of a class -/

def ClassDecl.fields : ClassDecl Node → List (String × Option Node)
  | .mk _ _ fields _ _ => fields

def ClassDecl.nested : ClassDecl Node → List (ClassDecl Node)
  | .mk _ _ _ _ nested => nested

mutual

/-- a class and the classes inside it, each with the names on the way to it from outside -/
def ClassDecl.tree (outer : List String) : ClassDecl Node → List (List String × ClassDecl Node)
  | .mk name parents fields methods nested =>
    (outer ++ [name], .mk name parents fields methods nested) :: treeIn (outer ++ [name]) nested

/-- classes and the classes inside them -/
def treeIn (outer : List String) : List (ClassDecl Node) → List (List String × ClassDecl Node)
  | [] => []
  | c :: cs => c.tree outer ++ treeIn outer cs

end

/-- a path of names with points between them -/
def dotted (path : List String) : String := ".".intercalate path

def outerName (outer : List String) : Option String := if outer.isEmpty then none else some (dotted outer)

theorem qualify_outerName (outer : List String) (name : String) :
    qualify (outerName outer) name = dotted (outer ++ [name]) := by
  cases outer with
  | nil => rfl
  | cons first outer =>
    show dotted (first :: outer) ++ "." ++ name = _
    rw [dotted, dotted, String.intercalate_append_of_ne_nil (List.cons_ne_nil _ _) (List.cons_ne_nil _ _)]
    rfl

theorem outerName_append (outer : List String) (name : String) :
    outerName (outer ++ [name]) = some (dotted (outer ++ [name])) := by
  rw [outerName, if_neg]
  simp

mutual

theorem ClassDecl.tree_classes (outer : List String) : (c : ClassDecl Node) →
    (c.tree outer).map Prod.snd = c.classes
  | .mk name parents fields methods nested => by
    rw [ClassDecl.tree, ClassDecl.classes, List.map_cons, treeIn_classes]

theorem treeIn_classes (outer : List String) : (cs : List (ClassDecl Node)) →
    (treeIn outer cs).map Prod.snd = classesIn cs
  | [] => rfl
  | c :: cs => by rw [treeIn, classesIn, List.map_append, ClassDecl.tree_classes, treeIn_classes]

end

mutual

/-- the classes of a tree are registered under their paths -/
theorem ClassDecl.fullNames_tree (outer : List String) : (c : ClassDecl Node) →
    c.fullNames (outerName outer) = (c.tree outer).map fun p => dotted p.1
  | .mk name parents fields methods nested => by
    rw [ClassDecl.fullNames, ClassDecl.tree, List.map_cons, qualify_outerName, ← outerName_append,
      fullNamesIn_tree]

theorem fullNamesIn_tree (outer : List String) : (cs : List (ClassDecl Node)) →
    fullNamesIn (outerName outer) cs = (treeIn outer cs).map fun p => dotted p.1
  | [] => rfl
  | c :: cs => by rw [fullNamesIn, treeIn, List.map_append, ClassDecl.fullNames_tree, fullNamesIn_tree]

end

mutual

theorem ClassDecl.tree_path (outer : List String) : (c : ClassDecl Node) →
    ∀ p ∈ c.tree outer, outer ++ [c.name] <+: p.1
  | .mk name parents fields methods nested => by
    rw [ClassDecl.tree]
    refine List.forall_mem_cons.2 ⟨List.prefix_refl _, fun p hp => ?_⟩
    obtain ⟨d, -, hd⟩ := treeIn_path (outer ++ [name]) nested p hp
    exact (List.prefix_append _ _).trans hd

theorem treeIn_path (outer : List String) : (cs : List (ClassDecl Node)) →
    ∀ p ∈ treeIn outer cs, ∃ c ∈ cs, outer ++ [c.name] <+: p.1
  | [] => List.forall_mem_nil _
  | c :: cs => by
    rw [treeIn]
    refine List.forall_mem_append.2 ⟨fun p hp => ?_, fun p hp => ?_⟩
    · exact ⟨c, List.mem_cons_self, ClassDecl.tree_path outer c p hp⟩
    · obtain ⟨d, hd, hpre⟩ := treeIn_path outer cs p hp
      exact ⟨d, List.mem_cons_of_mem _ hd, hpre⟩

end

/-- the classes that stand side by side in a class, at any depth, have different names -/
def ClassDecl.DistinctSiblings (c : ClassDecl Node) : Prop := ∀ d ∈ c.classes, (d.nested.map ClassDecl.name).Nodup

theorem eq_of_append_singleton {outer path : List String} {a b : String} (ha : outer ++ [a] <+: path)
    (hb : outer ++ [b] <+: path) : a = b := by
  have hlength : (outer ++ [a]).length = (outer ++ [b]).length := by simp
  have heq := (List.prefix_of_prefix_length_le ha hb hlength.le).eq_of_length hlength
  simpa using heq

mutual

theorem ClassDecl.nodup_tree (outer : List String) : (c : ClassDecl Node) → c.DistinctSiblings →
    ((c.tree outer).map Prod.fst).Nodup
  | .mk name parents fields methods nested, h => by
    have hnested : ∀ c ∈ nested, c.DistinctSiblings := by
      intro c hc d hd
      refine h d ?_
      rw [ClassDecl.classes]
      exact List.mem_cons_of_mem _ (mem_classesIn.2 ⟨c, hc, hd⟩)
    rw [ClassDecl.tree, List.map_cons, List.nodup_cons]
    refine ⟨?_, nodup_treeIn _ nested (h _ (ClassDecl.mem_classes _)) hnested⟩
    -- the paths to the classes inside are longer
    intro hm
    obtain ⟨p, hp, he⟩ := List.mem_map.1 hm
    obtain ⟨d, -, hd⟩ := treeIn_path _ nested p hp
    rw [he] at hd
    have := hd.length_le
    simp at this

theorem nodup_treeIn (outer : List String) : (cs : List (ClassDecl Node)) → (cs.map ClassDecl.name).Nodup →
    (∀ c ∈ cs, c.DistinctSiblings) → ((treeIn outer cs).map Prod.fst).Nodup
  | [], _, _ => List.nodup_nil
  | c :: cs, hnames, h => by
    rw [List.map_cons, List.nodup_cons] at hnames
    rw [List.forall_mem_cons] at h
    rw [treeIn, List.map_append, List.nodup_append]
    refine ⟨ClassDecl.nodup_tree outer c h.1, nodup_treeIn outer cs hnames.2 h.2, ?_⟩
    -- paths of two siblings part at the names of the siblings
    rintro path hpath _ hother rfl
    obtain ⟨p, hp, rfl⟩ := List.mem_map.1 hpath
    obtain ⟨q, hq, he⟩ := List.mem_map.1 hother
    obtain ⟨d, hd, hq⟩ := treeIn_path outer cs q hq
    rw [he] at hq
    have hname := eq_of_append_singleton (ClassDecl.tree_path outer c p hp) hq
    exact hnames.1 (List.mem_map.2 ⟨d, hd, hname.symm⟩)

end

mutual

theorem ClassDecl.mem_tree (outer : List String) : (c : ClassDecl Node) → ∀ p ∈ c.tree outer, ∀ name ∈ p.1,
    name ∈ outer ∨ name ∈ c.classes.map ClassDecl.name
  | .mk name parents fields methods nested => by
    rw [ClassDecl.tree, ClassDecl.classes, List.map_cons]
    have hhere : ∀ other ∈ outer ++ [name], other ∈ outer ∨ other ∈ name :: (classesIn nested).map ClassDecl.name := by
      intro other ho
      obtain ho | ho := List.mem_append.1 ho
      · exact .inl ho
      · exact .inr (List.mem_singleton.1 ho ▸ List.mem_cons_self)
    refine List.forall_mem_cons.2 ⟨hhere, fun p hp other ho => ?_⟩
    obtain ho | ho := mem_treeIn _ nested p hp other ho
    · exact hhere other ho
    · exact .inr (List.mem_cons_of_mem _ ho)

theorem mem_treeIn (outer : List String) : (cs : List (ClassDecl Node)) → ∀ p ∈ treeIn outer cs, ∀ name ∈ p.1,
    name ∈ outer ∨ name ∈ (classesIn cs).map ClassDecl.name
  | [] => List.forall_mem_nil _
  | c :: cs => by
    rw [treeIn, classesIn, List.map_append]
    refine List.forall_mem_append.2 ⟨fun p hp other ho => ?_, fun p hp other ho => ?_⟩
    · exact (ClassDecl.mem_tree outer c p hp other ho).imp_right (List.mem_append_left _)
    · exact (mem_treeIn outer cs p hp other ho).imp_right (List.mem_append_right _)

end

/-- names without points can be told from their path -/
theorem dotted_inj {p q : List String} (hp : ∀ name ∈ p, '.' ∉ name.toList) (hq : ∀ name ∈ q, '.' ∉ name.toList)
    (hpne : p ≠ []) (hqne : q ≠ []) (h : dotted p = dotted q) : p = q := by
  have hsplit : ∀ {path : List String}, (∀ name ∈ path, '.' ∉ name.toList) → path ≠ [] →
      (dotted path).toList.splitOn '.' = path.map String.toList := by
    intro path hnames hne
    rw [dotted, String.toList_intercalate]
    refine List.splitOn_intercalate '.' (List.forall_mem_map.2 hnames) fun he => hne (List.map_eq_nil_iff.1 he)
  have heq := (hsplit hp hpne).symm.trans ((congrArg (·.toList.splitOn '.') h).trans (hsplit hq hqne))
  exact List.map_injective_iff.2 (fun a b hab => String.toList_inj.1 hab) heq

theorem ClassDecl.nodup_dotted {c : ClassDecl Node} (hs : c.DistinctSiblings) (hp : c.Pointless) :
    ((c.tree []).map fun p => dotted p.1).Nodup := by
  have hpath : ∀ path ∈ (c.tree []).map Prod.fst, (∀ name ∈ path, '.' ∉ name.toList) ∧ path ≠ [] := by
    refine List.forall_mem_map.2 fun p hm => ⟨fun name hn => ?_, ?_⟩
    · obtain hn | hn := c.mem_tree [] p hm name hn
      · cases hn
      · obtain ⟨d, hd, rfl⟩ := List.mem_map.1 hn
        exact hp d hd
    · intro he
      have := (c.tree_path [] p hm).length_le
      simp [he] at this
  have hmap : ((c.tree []).map fun p => dotted p.1) = ((c.tree []).map Prod.fst).map dotted := by
    rw [List.map_map]
    rfl
  rw [hmap]
  refine (c.nodup_tree [] hs).map_on fun p hm q hm' he => ?_
  exact dotted_inj (hpath p hm).1 (hpath q hm').1 (hpath p hm).2 (hpath q hm').2 he

/-! ## what is registered -/

/-- **The methods of a class by name**: of several methods of one name, the last one. -/
theorem lookup_methodCells (closure : Method Node → Closure) {function : Nat → Closure} (key : String)
    (ms : List (Method Node)) (cell : Nat) (made : List (String × Nat))
    (h : ∀ i m, ms[i]? = some m → function (cell + i) = closure m) :
    ((methodCells cell ms made).lookup key).map function =
      ((ms.reverse.find? (·.name = key)).map closure).or ((made.lookup key).map function) := by
  induction ms generalizing cell made with
  | nil => rfl
  | cons m ms ih =>
    have hrest : ∀ i m', ms[i]? = some m' → function (cell + 1 + i) = closure m' := by
      intro i m' hm
      rw [Nat.add_assoc, Nat.add_comm 1 i]
      exact h (i + 1) m' hm
    have hhere : function cell = closure m := h 0 m rfl
    have hfind : [m].find? (·.name = key) = if key = m.name then some m else none := by
      simp [List.find?_singleton, eq_comm]
    rw [methodCells, ih _ _ hrest, lookup_putAt, List.reverse_cons, List.find?_append, hfind]
    -- a later method of the name goes before this one, and this one before those that are made
    cases ms.reverse.find? (·.name = key) with
    | some m' => rfl
    | none =>
      by_cases hk : key = m.name
      · rw [if_pos hk, if_pos hk, Option.map_some, hhere]
        rfl
      · rw [if_neg hk, if_neg hk]
        rfl

/-- an entry holds the fields of a class and its methods, which have their places among functions that start at
a cell -/
structure ClassInfo.Holds (info : ClassInfo) (cell : Nat) (all : List (Method Node)) (d : ClassDecl Node) : Prop where
  fields : info.fields = d.fields
  methods : ∃ before after, all = before ++ d.methods ++ after ∧
    info.methods = methodCells (cell + before.length) d.methods []

theorem ClassInfo.Holds.widen {info : ClassInfo} {cell : Nat} {all : List (Method Node)} {d : ClassDecl Node}
    (before after : List (Method Node)) (h : info.Holds (cell + before.length) all d) :
    info.Holds cell (before ++ all ++ after) d where
  fields := h.fields
  methods := by
    obtain ⟨early, late, rfl, hm⟩ := h.methods
    refine ⟨before ++ early, late ++ after, by simp, ?_⟩
    rw [hm, List.length_append, Nat.add_assoc]

mutual

theorem ClassDecl.exists_entry (outer : List String) (cell : Nat) : (c : ClassDecl Node) → ∀ p ∈ c.tree outer,
    ∃ info, (dotted p.1, info) ∈ c.entries (outerName outer) cell ∧ info.Holds cell c.allMethods p.2
  | .mk name parents fields methods nested => by
    rw [ClassDecl.tree, ClassDecl.entries, qualify_outerName, ← outerName_append, ClassDecl.allMethods_mk]
    refine List.forall_mem_cons.2 ⟨?_, fun p hp => ?_⟩
    · exact ⟨_, List.mem_cons_self, rfl, [], allMethodsIn nested, rfl, rfl⟩
    · obtain ⟨info, hm, hholds⟩ := exists_entryIn (outer ++ [name]) (cell + methods.length) nested p hp
      refine ⟨info, List.mem_cons_of_mem _ hm, ?_⟩
      have hwide := hholds.widen methods []
      rwa [List.append_nil] at hwide

theorem exists_entryIn (outer : List String) (cell : Nat) : (cs : List (ClassDecl Node)) → ∀ p ∈ treeIn outer cs,
    ∃ info, (dotted p.1, info) ∈ entriesIn (outerName outer) cell cs ∧ info.Holds cell (allMethodsIn cs) p.2
  | [] => List.forall_mem_nil _
  | c :: cs => by
    rw [treeIn, entriesIn, allMethodsIn_cons]
    refine List.forall_mem_append.2 ⟨fun p hp => ?_, fun p hp => ?_⟩
    · obtain ⟨info, hm, hholds⟩ := ClassDecl.exists_entry outer cell c p hp
      exact ⟨info, List.mem_append_left _ hm, hholds.widen [] (allMethodsIn cs)⟩
    · obtain ⟨info, hm, hholds⟩ := exists_entryIn outer (cell + c.allMethods.length) cs p hp
      have hwide := hholds.widen c.allMethods []
      rw [List.append_nil] at hwide
      exact ⟨info, List.mem_append_right _ hm, hwide⟩

end

/-! ## class statements -/

def World.withClass (w : World) (c : ClassDecl Node) : World :=
  { w with
    functions := addClosures w.globals w.functions c.allMethods
    callables := w.callables.push (constructorOf false c)
    classes := w.classes.update ⟨c.entries none w.functions.size⟩
    scopes := w.scopes.modify w.globals (·.insert c.name (.callable w.callables.size)) }

namespace World

variable (w : World) (c : ClassDecl Node)

theorem function_withClass {i : Nat} {m : Method Node} (h : c.allMethods[i]? = some m) :
    (w.withClass c).function (w.functions.size + i) = m.closure w.globals := by
  show (addClosures w.globals w.functions c.allMethods).getD _ _ = _
  rw [Array.getD_eq_getD_getElem?, ← Array.getElem?_toList, toList_addClosures,
    List.getElem?_append_right (by simp), List.getElem?_map]
  simp [h]

theorem function_withClass_of_lt {cell : Nat} (h : cell < w.functions.size) :
    (w.withClass c).function cell = w.function cell := by
  show (addClosures w.globals w.functions c.allMethods).getD _ _ = w.functions.getD _ _
  rw [Array.getD_eq_getD_getElem?, ← Array.getElem?_toList, toList_addClosures,
    List.getElem?_append_left (by simpa using h), Array.getElem?_toList, ← Array.getD_eq_getD_getElem?]
  rfl

theorem scope_withClass_of_ne {s : Nat} (h : s ≠ w.globals) : (w.withClass c).scope s = w.scope s := by
  show (w.scopes.modify w.globals _).getD s default = w.scopes.getD s default
  rw [Array.getD_eq_getD_getElem?, Array.getElem?_modify, if_neg (Ne.symm h), ← Array.getD_eq_getD_getElem?]

theorem find?_scope_withClass {name : String} (h : name ≠ c.name) :
    ((w.withClass c).scope w.globals).find? name = (w.scope w.globals).find? name := by
  show ((w.scopes.modify w.globals _).getD w.globals default).find? name = (w.scopes.getD w.globals default).find? name
  rw [Array.getD_eq_getD_getElem?, Array.getElem?_modify, if_pos rfl, Array.getD_eq_getD_getElem?]
  cases w.scopes[w.globals]? with
  | none => rfl
  | some scope =>
    show (scope.insert c.name _).find? name = scope.find? name
    rw [Scope.find?_insert, if_neg h]

end World

/-- the entry of a class in the state after the statement: its own fields, and its own methods as functions that see
the global variables, the last one of each name -/
def World.Registers (w u : World) (name : String) (d : ClassDecl Node) : Prop :=
  ∃ info, u.classes.find? name = some info ∧ info.fields = d.fields ∧
    ∀ key, (info.methods.lookup key).map u.function =
      (d.methods.reverse.find? (·.name = key)).map (Method.closure w.globals)

theorem ClassDecl.entries_dotted (cell : Nat) (c : ClassDecl Node) :
    (c.entries none cell).map Prod.fst = (c.tree []).map fun p => dotted p.1 :=
  (c.entries_names none cell).trans (c.fullNames_tree [])

section
variable (w : World) {c : ClassDecl Node} (hs : c.DistinctSiblings) (hp : c.Pointless)
include hs hp

theorem ClassDecl.distinct_entries (cell : Nat) : ClassTable.Distinct ⟨c.entries none cell⟩ := by
  show ((c.entries none cell).map Prod.fst).Nodup
  rw [ClassDecl.entries_dotted]
  exact ClassDecl.nodup_dotted hs hp

theorem World.registers_withClass {p : List String × ClassDecl Node} (h : p ∈ c.tree []) :
    w.Registers (w.withClass c) (dotted p.1) p.2 := by
  obtain ⟨info, hm, hfields, before, after, hall, hmethods⟩ := c.exists_entry [] w.functions.size p h
  have hdistinct := ClassDecl.distinct_entries hs hp w.functions.size
  have hfind : ClassTable.find? ⟨c.entries none w.functions.size⟩ (dotted p.1) = some info := lookup_of_mem hdistinct hm
  refine ⟨info, ?_, hfields, fun key => ?_⟩
  · show (w.classes.update _).find? _ = _
    rw [ClassTable.find?_update _ hdistinct, hfind, Option.some_or]
  · rw [hmethods, lookup_methodCells (Method.closure w.globals) key p.2.methods]
    · exact Option.or_none
    · intro i m hi
      rw [Nat.add_assoc]
      refine w.function_withClass c ?_
      obtain ⟨hlt, -⟩ := List.getElem?_eq_some_iff.1 hi
      rw [hall, List.append_assoc, List.getElem?_append_right (Nat.le_add_right _ _), Nat.add_sub_cancel_left,
        List.getElem?_append_left hlt, hi]

theorem World.find?_withClass {name : String} (h : name ∉ (c.tree []).map fun p => dotted p.1) :
    (w.withClass c).classes.find? name = w.classes.find? name := by
  have hdistinct := ClassDecl.distinct_entries hs hp w.functions.size
  have hnone : ClassTable.find? ⟨c.entries none w.functions.size⟩ name = none := by
    rw [← Option.not_isSome_iff_eq_none, ClassTable.isSome_find?_iff]
    show name ∉ (c.entries none w.functions.size).map Prod.fst
    rwa [ClassDecl.entries_dotted]
  show (w.classes.update _).find? _ = _
  rw [ClassTable.find?_update _ hdistinct, hnone, Option.none_or]

end

/-- **A class statement registers exactly its tree.** Let a class be read from the tokens of a source, and let the
classes that stand side by side in it, at any depth, have different names. Then executing the statement registers
every class of the tree under its own name, with the names of the classes around it before it: with its fields and
its methods, of which the last one counts if several have one name. Nothing else changes in the class table, in the
functions that were there, in any other scope and in the global names, but for the name of the class itself. -/
theorem class_tree_registered {n k s : Nat} {source : String} {ts rest : List Token} {c : ClassDecl Node}
    (hts : ts <:+ tokenize source) (hk : ts.length ≤ k)
    (hread : Parse.classDecl (Parse.grammar k) ts = .ok (c, rest)) (hs : c.DistinctSiblings) (w : World) :
    ∃ u, (machine (n + 1)).exec (.classDef c) s w = .ok .null u ∧
      (c.tree []).map Prod.snd = c.classes ∧ ((c.tree []).map fun p => dotted p.1).Nodup ∧
      (∀ p ∈ c.tree [], w.Registers u (dotted p.1) p.2) ∧
      (∀ name, name ∉ (c.tree []).map (fun p => dotted p.1) → u.classes.find? name = w.classes.find? name) ∧
      (w.classes.Distinct → u.classes.Distinct) ∧
      (∀ cell < w.functions.size, u.function cell = w.function cell) ∧
      u.globals = w.globals ∧ (∀ other, other ≠ w.globals → u.scope other = w.scope other) ∧
      ∀ name, name ≠ c.name → (u.scope w.globals).find? name = (w.scope w.globals).find? name := by
  have hp : c.Pointless := ClassDecl.pointless_of_read hts hk hread
  refine ⟨w.withClass c, declareClass_eq c w, c.tree_classes [], ClassDecl.nodup_dotted hs hp, ?_, ?_, ?_, ?_, rfl,
    ?_, ?_⟩
  · exact fun p hm => w.registers_withClass hs hp hm
  · exact fun name hn => w.find?_withClass hs hp hn
  · exact fun hd => hd.update _
  · exact fun cell hlt => w.function_withClass_of_lt c hlt
  · exact fun other ho => w.scope_withClass_of_ne c ho
  · exact fun name hn => w.find?_scope_withClass c hn

/-- a class with a field and two methods of one name, and with a class in it that has a class in it -/
def treeSource : String :=
  "class A \x7b x; def m() \x7b\x7d def m() \x7b x \x7d class B \x7b class C \x7b y \x7d \x7d \x7d"

def sampleTree : ClassDecl Node :=
  .mk "A" [] [("x", none)] [⟨"m", [], []⟩, ⟨"m", [], [.var "x"]⟩] [.mk "B" [] [] [] [.mk "C" [] [("y", none)] [] []]]

theorem tokenize_treeSource : tokenize treeSource =
    [⟨.keyword, "class"⟩, ⟨.ident, "A"⟩, ⟨.symbol, "\x7b"⟩, ⟨.ident, "x"⟩, ⟨.symbol, ";"⟩, ⟨.keyword, "def"⟩,
      ⟨.ident, "m"⟩, ⟨.symbol, "("⟩, ⟨.symbol, ")"⟩, ⟨.symbol, "\x7b"⟩, ⟨.symbol, "\x7d"⟩, ⟨.keyword, "def"⟩,
      ⟨.ident, "m"⟩, ⟨.symbol, "("⟩, ⟨.symbol, ")"⟩, ⟨.symbol, "\x7b"⟩, ⟨.ident, "x"⟩, ⟨.symbol, "\x7d"⟩,
      ⟨.keyword, "class"⟩, ⟨.ident, "B"⟩, ⟨.symbol, "\x7b"⟩, ⟨.keyword, "class"⟩, ⟨.ident, "C"⟩,
      ⟨.symbol, "\x7b"⟩, ⟨.ident, "y"⟩, ⟨.symbol, "\x7d"⟩, ⟨.symbol, "\x7d"⟩, ⟨.symbol, "\x7d"⟩] := by
  decide +kernel

/-- the statement registers `A.B.C`, and `A` with the second method `m`, but no class `C` -/
theorem class_tree_registered_sample :
    ∃ u, (machine 1).exec (.classDef sampleTree) 0 default = .ok .null u ∧
      (∃ info, u.classes.find? "A.B.C" = some info ∧ info.fields = [("y", none)]) ∧
      (∃ info, u.classes.find? "A" = some info ∧ info.fields = [("x", none)] ∧
        (info.methods.lookup "m").map u.function = some ⟨[], [.var "x"], 0⟩) ∧
      u.classes.find? "C" = none := by
  have hread : Parse.classDecl (Parse.grammar 28) (tokenize treeSource) = .ok (sampleTree, []) := by
    rw [tokenize_treeSource]
    rfl
  have hk : (tokenize treeSource).length ≤ 28 := by
    rw [tokenize_treeSource]
    decide
  have hs : sampleTree.DistinctSiblings := by
    intro d hd
    have hmem : d ∈ [sampleTree, .mk "B" [] [] [] [.mk "C" [] [("y", none)] [] []],
      .mk "C" [] [("y", none)] [] []] := hd
    simp only [List.mem_cons, List.not_mem_nil, or_false] at hmem
    obtain rfl | rfl | rfl := hmem
    all_goals decide
  obtain ⟨u, hrun, -, -, hentries, hothers, -⟩ :=
    class_tree_registered (n := 0) (s := 0) (List.suffix_refl _) hk hread hs default
  obtain ⟨inner, hinner, hfields, -⟩ := hentries (["A", "B", "C"], .mk "C" [] [("y", none)] [] [])
    (List.mem_of_getElem? (i := 2) rfl)
  obtain ⟨info, hinfo, hfields', hmethods⟩ := hentries (["A"], sampleTree) (List.mem_of_getElem? (i := 0) rfl)
  refine ⟨u, hrun, ⟨inner, ?_, hfields⟩, ⟨info, ?_, hfields', hmethods "m"⟩, ?_⟩
  · rw [← hinner]
    exact congrArg u.classes.find? (by decide)
  · rw [← hinfo]
    exact congrArg u.classes.find? (by decide)
  · exact hothers "C" (by decide)

end BraceScript
