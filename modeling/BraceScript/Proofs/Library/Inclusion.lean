import BraceScript.Proofs.Exec.Bindings
import BraceScript.Proofs.Exec.QuietProgram
import Mathlib.Data.List.Induction

/-!
# Two ways to include a file

A statement executes a file in place; a call collects the classes and functions of the file first, in a
table of its own, and then puts that table over the one that is there. On a file of classes followed by
functions both register the same classes. They differ only in functions with a dotted name whose class is
not in the file: the statement attaches them, and makes the class if there is none; the call leaves them
out.

* `putAt_comm`, `ClassTable.update_insert`   tables, and one put over another
* `ClassDecl.entries`        what a class registers
* `registerClass_run`        registering a class puts its entries
* `Attachment`, `ClassTable.foldl_attach_update`   functions that are attached to classes
* `includes_agree`           both ways register the same classes
-/

namespace BraceScript

open Exec

/-! ## tables -/

section
variable {α : Type} {xs : List (String × α)} {a b : String} {x y : α}

theorem lookup_putAt (a b : String) (x : α) (xs : List (String × α)) :
    (putAt a x xs).lookup b = if b = a then some x else xs.lookup b := by
  induction xs with
  | nil => rw [putAt, lookup_cons_eq]
  | cons e xs ih =>
    obtain ⟨k, v⟩ := e
    by_cases hk : k = a
    · rw [putAt, if_pos hk, lookup_cons_eq, lookup_cons_eq, hk]
      by_cases hb : b = a <;> simp [hb]
    · rw [putAt, if_neg hk, lookup_cons_eq, lookup_cons_eq, ih]
      by_cases hb : b = k
      · simp [hb, hk]
      · simp [hb]

theorem keys_putAt (a : String) (x : α) (xs : List (String × α)) :
    (putAt a x xs).map Prod.fst =
      if a ∈ xs.map Prod.fst then xs.map Prod.fst else xs.map Prod.fst ++ [a] := by
  induction xs with
  | nil => simp [putAt]
  | cons e xs ih =>
    obtain ⟨k, v⟩ := e
    by_cases hk : k = a
    · simp [putAt, hk]
    · have hne : a ≠ k := fun e => hk e.symm
      rw [putAt, if_neg hk, List.map_cons, ih]
      by_cases hm : a ∈ xs.map Prod.fst <;> simp [hm, hne]

theorem putAt_putAt (a : String) (x y : α) (xs : List (String × α)) :
    putAt a y (putAt a x xs) = putAt a y xs := by
  induction xs with
  | nil => simp [putAt]
  | cons e xs ih =>
    obtain ⟨k, v⟩ := e
    by_cases hk : k = a <;> simp [putAt, hk, ih]

/-- values under two names can be put in any order when one of the names is there -/
theorem putAt_comm (h : a ≠ b) (ha : a ∈ xs.map Prod.fst) :
    putAt b y (putAt a x xs) = putAt a x (putAt b y xs) := by
  induction xs with
  | nil => simp at ha
  | cons e xs ih =>
    obtain ⟨k, v⟩ := e
    by_cases hk : k = a
    · simp [putAt, hk, h]
    · have ha' : a ∈ xs.map Prod.fst := by
        rcases List.mem_cons.1 ha with e | hm
        · exact absurd e.symm hk
        · exact hm
      by_cases hb : k = b
      · simp [putAt, hb, h.symm]
      · simp [putAt, hk, hb, ih ha']

end

namespace ClassTable

def names (t : ClassTable) : List String := t.classes.map Prod.fst

/-- every name is registered once -/
def Distinct (t : ClassTable) : Prop := t.names.Nodup

variable {t s : ClassTable} {name : String}

theorem find?_insert (t : ClassTable) (name other : String) (c : ClassInfo) :
    (t.insert name c).find? other = if other = name then some c else t.find? other :=
  lookup_putAt name other c t.classes

theorem names_insert (t : ClassTable) (name : String) (c : ClassInfo) :
    (t.insert name c).names = if name ∈ t.names then t.names else t.names ++ [name] :=
  keys_putAt name c t.classes

theorem mem_names_insert {other : String} {c : ClassInfo} :
    other ∈ (t.insert name c).names ↔ other ∈ t.names ∨ other = name := by
  rw [names_insert]
  split
  · constructor
    · exact .inl
    · rintro (h | rfl) <;> assumption
  · simp

theorem isSome_find?_iff : (t.find? name).isSome ↔ name ∈ t.names := by
  rw [find?, names]
  induction t.classes with
  | nil => simp
  | cons e classes ih =>
    obtain ⟨k, c⟩ := e
    by_cases hk : name = k <;> simp [lookup_cons_eq, hk, ih]

theorem Distinct.insert (h : t.Distinct) (name : String) (c : ClassInfo) :
    (t.insert name c).Distinct := by
  rw [Distinct, names_insert]
  split
  · exact h
  · rename_i hn
    refine List.nodup_append.2 ⟨h, by simp, fun a ha b hb e => ?_⟩
    rw [List.mem_singleton.1 hb] at e
    exact hn (e ▸ ha)

theorem update_cons (t : ClassTable) (e : String × ClassInfo) (es : List (String × ClassInfo)) :
    t.update ⟨e :: es⟩ = (t.insert e.1 e.2).update ⟨es⟩ := rfl

theorem update_append (t : ClassTable) (es fs : List (String × ClassInfo)) :
    t.update ⟨es ++ fs⟩ = (t.update ⟨es⟩).update ⟨fs⟩ := List.foldl_append

theorem mem_names_update (es : List (String × ClassInfo)) (other : String) :
    other ∈ (t.update ⟨es⟩).names ↔ other ∈ t.names ∨ other ∈ es.map Prod.fst := by
  induction es generalizing t with
  | nil => simp [update]
  | cons e es ih =>
    rw [update_cons, ih, mem_names_insert, List.map_cons, List.mem_cons, or_assoc]

theorem Distinct.update (h : t.Distinct) (es : List (String × ClassInfo)) : (t.update ⟨es⟩).Distinct := by
  induction es generalizing t with
  | nil => exact h
  | cons e es ih => exact ih (h.insert e.1 e.2)

/-- a class that is there can be put before others -/
theorem insert_update (c : ClassInfo) {es : List (String × ClassInfo)} (hn : name ∈ t.names)
    (he : name ∉ es.map Prod.fst) : (t.update ⟨es⟩).insert name c = (t.insert name c).update ⟨es⟩ := by
  induction es generalizing t with
  | nil => rfl
  | cons e es ih =>
    rw [List.map_cons, List.mem_cons, not_or] at he
    have hcomm : (t.insert e.1 e.2).insert name c = (t.insert name c).insert e.1 e.2 :=
      congrArg ClassTable.mk (putAt_comm he.1 hn).symm
    rw [update_cons, update_cons, ih (mem_names_insert.2 (.inl hn)) he.2, hcomm]

/-- a class that is put into a table is put after the table -/
theorem update_insert (t : ClassTable) (hs : s.Distinct) (name : String) (c : ClassInfo) :
    t.update (s.insert name c) = (t.update s).insert name c := by
  obtain ⟨es⟩ := s
  show t.update ⟨putAt name c es⟩ = (t.update ⟨es⟩).insert name c
  induction es generalizing t with
  | nil => rfl
  | cons e es ih =>
    obtain ⟨k, v⟩ := e
    obtain ⟨hk, hes⟩ := List.nodup_cons.1 hs
    by_cases hkn : k = name
    · subst hkn
      have htwice : (t.insert k v).insert k c = t.insert k c := congrArg ClassTable.mk (putAt_putAt k v c _)
      rw [putAt, if_pos rfl, update_cons, update_cons,
        insert_update c (mem_names_insert.2 (.inr rfl)) hk, htwice]
    · rw [putAt, if_neg hkn, update_cons, update_cons]
      exact ih _ hes

/-- tables that are put one after the other are put as one -/
theorem update_update (t : ClassTable) (hs : s.Distinct) (es : List (String × ClassInfo)) :
    t.update (s.update ⟨es⟩) = (t.update s).update ⟨es⟩ := by
  induction es generalizing s with
  | nil => rfl
  | cons e es ih => rw [update_cons, update_cons, ih (hs.insert e.1 e.2), update_insert t hs]

theorem find?_update (t : ClassTable) (hs : s.Distinct) (name : String) :
    (t.update s).find? name = (s.find? name).or (t.find? name) := by
  obtain ⟨es⟩ := s
  induction es generalizing t with
  | nil => rfl
  | cons e es ih =>
    obtain ⟨k, v⟩ := e
    obtain ⟨hk, hes⟩ := List.nodup_cons.1 hs
    rw [update_cons, ih _ hes, find?_insert]
    show _ = (((k, v) :: es).lookup name).or _
    rw [lookup_cons_eq]
    by_cases hn : name = k
    · have hnone : (⟨es⟩ : ClassTable).find? k = none := by
        rw [← Option.not_isSome_iff_eq_none, isSome_find?_iff]
        exact hk
      simp [hn, hnone]
    · rw [if_neg hn, if_neg hn]
      rfl

end ClassTable

/-! ## what a class registers -/

def ClassDecl.allMethods (c : ClassDecl Node) : List (Method Node) := c.classes.flatMap ClassDecl.methods

def allMethodsIn (cs : List (ClassDecl Node)) : List (Method Node) :=
  (classesIn cs).flatMap ClassDecl.methods

theorem ClassDecl.allMethods_mk (name : String) (parents : List String)
    (fields : List (String × Option Node)) (methods : List (Method Node)) (nested : List (ClassDecl Node)) :
    (ClassDecl.mk name parents fields methods nested).allMethods = methods ++ allMethodsIn nested := by
  rw [allMethods, ClassDecl.classes, List.flatMap_cons]
  rfl

theorem allMethodsIn_cons (c : ClassDecl Node) (cs : List (ClassDecl Node)) :
    allMethodsIn (c :: cs) = c.allMethods ++ allMethodsIn cs := by
  rw [allMethodsIn, classesIn, List.flatMap_append]
  rfl

/-- the methods of a class by name, when they get cells in order from a given one -/
def methodCells (cell : Nat) : List (Method Node) → List (String × Nat) → List (String × Nat)
  | [], made => made
  | m :: ms, made => methodCells (cell + 1) ms (putAt m.name cell made)

mutual

/-- what a class registers, when its methods get cells in order from a given one -/
def ClassDecl.entries (outer : Option String) (cell : Nat) :
    ClassDecl Node → List (String × ClassInfo)
  | .mk name parents fields methods nested =>
    (qualify outer name, ⟨fields, some (qualifiedParents outer (nested.map ClassDecl.name) parents),
      methodCells cell methods []⟩) ::
      entriesIn (some (qualify outer name)) (cell + methods.length) nested

/-- what classes register -/
def entriesIn (outer : Option String) (cell : Nat) :
    List (ClassDecl Node) → List (String × ClassInfo)
  | [] => []
  | c :: cs => c.entries outer cell ++ entriesIn outer (cell + c.allMethods.length) cs

end

mutual

def ClassDecl.fullNames (outer : Option String) : ClassDecl Node → List String
  | .mk name _ _ _ nested => qualify outer name :: fullNamesIn (some (qualify outer name)) nested

def fullNamesIn (outer : Option String) : List (ClassDecl Node) → List String
  | [] => []
  | c :: cs => c.fullNames outer ++ fullNamesIn outer cs

end

mutual

theorem ClassDecl.entries_names (outer : Option String) (cell : Nat) (c : ClassDecl Node) :
    (c.entries outer cell).map Prod.fst = c.fullNames outer := by
  cases c with
  | mk name parents fields methods nested =>
    rw [ClassDecl.entries, ClassDecl.fullNames, List.map_cons, entriesIn_names]

theorem entriesIn_names (outer : Option String) (cell : Nat) (cs : List (ClassDecl Node)) :
    (entriesIn outer cell cs).map Prod.fst = fullNamesIn outer cs := by
  cases cs with
  | nil => rfl
  | cons c cs =>
    rw [entriesIn, fullNamesIn, List.map_append, ClassDecl.entries_names, entriesIn_names]

end

def addClosures (globals : Nat) (fs : Array Closure) (ms : List (Method Node)) : Array Closure :=
  ms.foldl (fun fs m => fs.push ⟨m.params, m.body, globals⟩) fs

theorem addClosures_append (globals : Nat) (fs : Array Closure) (ms ns : List (Method Node)) :
    addClosures globals fs (ms ++ ns) = addClosures globals (addClosures globals fs ms) ns :=
  List.foldl_append

theorem size_addClosures (globals : Nat) (fs : Array Closure) (ms : List (Method Node)) :
    (addClosures globals fs ms).size = fs.size + ms.length := by
  induction ms generalizing fs with
  | nil => rfl
  | cons m ms ih =>
    rw [addClosures, List.foldl_cons]
    show (addClosures globals _ ms).size = _
    rw [ih, Array.size_push, List.length_cons]
    omega

theorem makeMethods_run (globals : Nat) (ms : List (Method Node)) (made : List (String × Nat)) (w : World) :
    makeMethods globals ms made w = .ok (methodCells w.functions.size ms made)
      { w with functions := addClosures globals w.functions ms } := by
  induction ms generalizing made w with
  | nil => rfl
  | cons m ms ih =>
    rw [makeMethods, bind_run]
    show makeMethods globals ms _ { w with functions := w.functions.push ⟨m.params, m.body, globals⟩ } = _
    rw [ih, Array.size_push]
    rfl

mutual

theorem registerClass_run (globals : Nat) (outer : Option String) (t : ClassTable) (c : ClassDecl Node)
    (w : World) :
    registerClass globals outer t c w = .ok (t.update ⟨c.entries outer w.functions.size⟩)
      { w with functions := addClosures globals w.functions c.allMethods } := by
  cases c with
  | mk name parents fields methods nested =>
    rw [registerClass, bind_run, makeMethods_run]
    dsimp only
    rw [registerClasses_run, size_addClosures, ClassDecl.entries, ClassTable.update_cons,
      ClassDecl.allMethods_mk, addClosures_append]

theorem registerClasses_run (globals : Nat) (outer : String) (t : ClassTable) (cs : List (ClassDecl Node))
    (w : World) :
    registerClasses globals outer t cs w = .ok (t.update ⟨entriesIn (some outer) w.functions.size cs⟩)
      { w with functions := addClosures globals w.functions (allMethodsIn cs) } := by
  cases cs with
  | nil =>
    rw [registerClasses]
    rfl
  | cons c cs =>
    rw [registerClasses, bind_run, registerClass_run]
    dsimp only
    rw [registerClasses_run, size_addClosures, entriesIn, ClassTable.update_append, allMethodsIn_cons,
      addClosures_append]

end

/-! ## functions that are attached to classes -/

/-- a function with a dotted name: its class, its name there and its cell -/
structure Attachment where
  className : String
  name : String
  cell : Nat

/-- the attachments among functions, which get cells in order from a given one -/
def attachments (cell : Nat) : List (Method Node) → List Attachment
  | [] => []
  | f :: fs => match splitMethodName f.name with
    | some (className, name) => ⟨className, name, cell⟩ :: attachments (cell + 1) fs
    | none => attachments (cell + 1) fs

theorem mem_attachments {cell : Nat} {fs : List (Method Node)} {a : Attachment}
    (h : a ∈ attachments cell fs) : ∃ f ∈ fs, splitMethodName f.name = some (a.className, a.name) := by
  induction fs generalizing cell with
  | nil => cases h
  | cons f fs ih =>
    rw [attachments] at h
    split at h
    · rename_i className name hs
      rcases List.mem_cons.1 h with rfl | h
      · exact ⟨f, List.mem_cons_self, hs⟩
      · obtain ⟨g, hg, hs⟩ := ih h
        exact ⟨g, List.mem_cons_of_mem _ hg, hs⟩
    · obtain ⟨g, hg, hs⟩ := ih h
      exact ⟨g, List.mem_cons_of_mem _ hg, hs⟩

namespace ClassTable

def attach (t : ClassTable) (a : Attachment) : ClassTable := t.addMethod a.className a.name a.cell

def attachKnown (t : ClassTable) (a : Attachment) : ClassTable :=
  if (t.find? a.className).isSome then t.attach a else t

variable {t s : ClassTable}

theorem mem_names_attach {a : Attachment} {name : String} :
    name ∈ (t.attach a).names ↔ name ∈ t.names ∨ name = a.className := mem_names_insert

theorem mem_names_attachKnown {a : Attachment} {name : String} :
    name ∈ (t.attachKnown a).names ↔ name ∈ t.names := by
  rw [attachKnown]
  split
  · rename_i h
    rw [mem_names_attach]
    exact or_iff_left_of_imp fun e => e ▸ isSome_find?_iff.1 h
  · rfl

theorem Distinct.attachKnown (h : t.Distinct) (a : Attachment) : (t.attachKnown a).Distinct := by
  rw [ClassTable.attachKnown]
  split
  · exact h.insert _ _
  · exact h

theorem mem_names_foldl_attachKnown {as : List Attachment} {name : String} :
    name ∈ (as.foldl attachKnown t).names ↔ name ∈ t.names := by
  induction as generalizing t with
  | nil => rfl
  | cons a as ih => rw [List.foldl_cons, ih, mem_names_attachKnown]

theorem Distinct.foldl_attachKnown (h : t.Distinct) (as : List Attachment) :
    (as.foldl ClassTable.attachKnown t).Distinct := by
  induction as generalizing t with
  | nil => exact h
  | cons a as ih => exact ih (h.attachKnown a)

/-- functions of different classes can be attached in any order when one of the classes is there -/
theorem attach_comm {a b : Attachment} (h : a.className ≠ b.className) (ha : a.className ∈ t.names) :
    (t.attach a).attach b = (t.attach b).attach a := by
  unfold attach addMethod
  rw [find?_insert, find?_insert, if_neg h, if_neg (Ne.symm h)]
  exact congrArg ClassTable.mk (putAt_comm h ha)

theorem foldl_attach_comm {a : Attachment} {bs : List Attachment} (ha : a.className ∈ t.names)
    (h : ∀ b ∈ bs, b.className ≠ a.className) :
    (bs.foldl attach t).attach a = bs.foldl attach (t.attach a) := by
  induction bs generalizing t with
  | nil => rfl
  | cons b bs ih =>
    rw [List.forall_mem_cons] at h
    rw [List.foldl_cons, List.foldl_cons, ih (mem_names_attach.2 (.inl ha)) h.2,
      attach_comm (Ne.symm h.1) ha]

/-- a function is attached to a class of a table before or after the table is put -/
theorem update_attach (t : ClassTable) (hs : s.Distinct) {a : Attachment} (ha : a.className ∈ s.names) :
    t.update (s.attach a) = (t.update s).attach a := by
  obtain ⟨c, hc⟩ := Option.isSome_iff_exists.1 (isSome_find?_iff.2 ha)
  unfold attach addMethod
  rw [update_insert t hs, find?_update t hs, hc, Option.some_or]

/-- functions are attached to a table that is put: those of the classes of the table first, the others
after it -/
theorem foldl_attach_update (t : ClassTable) (hs : s.Distinct) (as : List Attachment) :
    as.foldl attach (t.update s) =
      (as.filter (·.className ∉ s.names)).foldl attach (t.update (as.foldl attachKnown s)) := by
  induction as using List.reverseRecOn with
  | nil => rfl
  | append_singleton as a ih =>
    rw [List.foldl_append, List.foldl_append, List.foldl_cons, List.foldl_nil, List.foldl_cons,
      List.foldl_nil, ih, List.filter_append]
    by_cases ha : a.className ∈ s.names
    · have hin : a.className ∈ (as.foldl attachKnown s).names := mem_names_foldl_attachKnown.2 ha
      have hput : a.className ∈ (t.update (as.foldl attachKnown s)).names :=
        (mem_names_update _ _).2 (.inr hin)
      have hothers : ∀ b ∈ as.filter (·.className ∉ s.names), b.className ≠ a.className := by
        intro b hb e
        simp [e, ha] at hb
      rw [foldl_attach_comm hput hothers, ← update_attach t (hs.foldl_attachKnown as) hin, attachKnown,
        if_pos (isSome_find?_iff.2 hin)]
      simp [ha]
    · have hout : ¬ ((as.foldl attachKnown s).find? a.className).isSome := by
        rwa [isSome_find?_iff, mem_names_foldl_attachKnown]
      rw [attachKnown, if_neg hout]
      simp [ha]

end ClassTable

/-! ## executing a file and collecting it -/

/-- a state with a class table and with the closures of more functions -/
structure World.Registered (w : World) (t : ClassTable) (ms : List (Method Node)) (u : World) : Prop where
  classes : u.classes = t
  functions : u.functions = addClosures w.globals w.functions ms
  globals : u.globals = w.globals

namespace World.Registered

variable {w u v : World} {t t' : ClassTable} {ms ns : List (Method Node)}

theorem trans (h : w.Registered t ms u) (h' : u.Registered t' ns v) : w.Registered t' (ms ++ ns) v where
  classes := h'.classes
  functions := by rw [h'.functions, h.functions, h.globals, addClosures_append]
  globals := h'.globals.trans h.globals

theorem size (h : w.Registered t ms u) : u.functions.size = w.functions.size + ms.length := by
  rw [h.functions, size_addClosures]

end World.Registered

theorem declareClass_run (c : ClassDecl Node) (w : World) :
    ∃ u, declareClass c w = .ok .null u ∧
      w.Registered (w.classes.update ⟨c.entries none w.functions.size⟩) c.allMethods u := by
  rw [declareClass, bind_run, get_run]
  dsimp only
  rw [bind_run, registerClass_run]
  exact ⟨_, rfl, rfl, rfl, rfl⟩

theorem declareFunction_run (f : Method Node) (w : World) :
    ∃ u, declareFunction f w.globals w = .ok .null u ∧
      w.Registered ((attachments w.functions.size [f]).foldl ClassTable.attach w.classes) [f] u := by
  unfold declareFunction attachments
  cases h : splitMethodName f.name with
  | none => exact ⟨_, rfl, rfl, rfl, rfl⟩
  | some p => exact ⟨_, rfl, rfl, rfl, rfl⟩

/-- a statement without a value lets a block go on -/
theorem runBlock_null {m : Machine} {s : Nat} {node : Node} (hs : node.isOrdinary = true) {w u : World}
    (h : m.exec node s w = .ok .null u) (v : Value) (rest : List Node) :
    runBlock m s v (node :: rest) w = runBlock m s .null rest u := by
  rw [runBlock_statement m s v hs, bind_run, h]
  rfl

theorem runBlock_classes (n : Nat) (cs : List (ClassDecl Node)) (rest : List Node) (v : Value) (w : World) :
    ∃ v' u, runBlock (machine (n + 1)) w.globals v (cs.map .classDef ++ rest) w =
        runBlock (machine (n + 1)) w.globals v' rest u ∧
      w.Registered (w.classes.update ⟨entriesIn none w.functions.size cs⟩) (allMethodsIn cs) u := by
  induction cs generalizing v w with
  | nil => exact ⟨v, w, rfl, rfl, rfl, rfl⟩
  | cons c cs ih =>
    obtain ⟨u, hu, hc⟩ := declareClass_run c w
    obtain ⟨v', u', hu', hcs⟩ := ih .null u
    refine ⟨v', u', ?_, ?_⟩
    · rw [hc.globals] at hu'
      rw [List.map_cons, List.cons_append, runBlock_null rfl hu, hu']
    · have := hc.trans hcs
      rwa [hc.classes, hc.size, ← ClassTable.update_append, ← entriesIn, ← allMethodsIn_cons] at this

theorem attachments_cons (cell : Nat) (f : Method Node) (fs : List (Method Node)) :
    attachments cell (f :: fs) = attachments cell [f] ++ attachments (cell + 1) fs := by
  rw [attachments, attachments]
  cases splitMethodName f.name <;> rfl

theorem runBlock_functions (n : Nat) (fs : List (Method Node)) (v : Value) (w : World) :
    ∃ v' u, runBlock (machine (n + 1)) w.globals v (fs.map .define) w = .ok v' u ∧
      w.Registered ((attachments w.functions.size fs).foldl ClassTable.attach w.classes) fs u := by
  induction fs generalizing v w with
  | nil => exact ⟨v, w, rfl, rfl, rfl, rfl⟩
  | cons f fs ih =>
    obtain ⟨u, hu, hf⟩ := declareFunction_run f w
    obtain ⟨v', u', hu', hfs⟩ := ih .null u
    refine ⟨v', u', ?_, ?_⟩
    · rw [hf.globals] at hu'
      rw [List.map_cons, runBlock_null rfl hu, hu']
    · have := hf.trans hfs
      rwa [hf.classes, hf.size, ← List.foldl_append, List.length_singleton, ← attachments_cons] at this

theorem moduleClasses_functions (globals : Nat) (t : ClassTable) (d : Dict) (fs : List (Method Node)) :
    moduleClasses globals t d (fs.map .define) = pure (t, d) := by
  induction fs with
  | nil => rfl
  | cons f fs ih => exact ih

theorem moduleFunctions_classes (globals : Nat) (t : ClassTable) (d : Dict) (cs : List (ClassDecl Node))
    (rest : List Node) :
    moduleFunctions globals t d (cs.map .classDef ++ rest) = moduleFunctions globals t d rest := by
  induction cs with
  | nil => rfl
  | cons c cs ih => exact ih

theorem moduleClasses_run (t : ClassTable) (d : Dict) (cs : List (ClassDecl Node)) (fs : List (Method Node))
    (w : World) :
    ∃ d' u, moduleClasses w.globals t d (cs.map .classDef ++ fs.map .define) w =
        .ok (t.update ⟨entriesIn none w.functions.size cs⟩, d') u ∧
      w.Registered w.classes (allMethodsIn cs) u := by
  induction cs generalizing t d w with
  | nil => exact ⟨d, w, by rw [List.map_nil, List.nil_append, moduleClasses_functions]; rfl, rfl, rfl, rfl⟩
  | cons c cs ih =>
    have hc : w.Registered w.classes c.allMethods
        { w with functions := addClosures w.globals w.functions c.allMethods,
                 callables := w.callables.push (constructorOf true c) } := ⟨rfl, rfl, rfl⟩
    obtain ⟨d', u, hu, hcs⟩ := ih (t.update ⟨c.entries none w.functions.size⟩)
      (d.insert (.str c.name) (.callable w.callables.size)) _
    refine ⟨d', u, ?_, ?_⟩
    · rw [List.map_cons, List.cons_append, moduleClasses, bind_run, registerClass_run]
      dsimp only
      rw [hc.size, ← ClassTable.update_append, ← entriesIn] at hu
      exact hu
    · have := hc.trans hcs
      rwa [← allMethodsIn_cons] at this

theorem moduleFunctions_run (t : ClassTable) (d : Dict) (fs : List (Method Node)) (w : World) :
    ∃ d' u, moduleFunctions w.globals t d (fs.map .define) w =
        .ok ((attachments w.functions.size fs).foldl ClassTable.attachKnown t, d') u ∧
      w.Registered w.classes fs u := by
  induction fs generalizing t d w with
  | nil => exact ⟨d, w, rfl, rfl, rfl, rfl⟩
  | cons f fs ih =>
    have hf : w.Registered w.classes [f]
        { w with functions := w.functions.push ⟨f.params, f.body, w.globals⟩ } := ⟨rfl, rfl, rfl⟩
    cases hs : splitMethodName f.name with
    | none =>
      obtain ⟨d', u, hu, hfs⟩ := ih t (d.insert (.str f.name) (.function w.functions.size)) _
      refine ⟨d', u, ?_, hf.trans hfs⟩
      rw [hf.size] at hu
      rw [List.map_cons, moduleFunctions, attachments, hs]
      exact hu
    | some p =>
      obtain ⟨d', u, hu, hfs⟩ := ih (t.attachKnown ⟨p.1, p.2, w.functions.size⟩) d _
      refine ⟨d', u, ?_, hf.trans hfs⟩
      rw [hf.size] at hu
      rw [List.map_cons, moduleFunctions, attachments, hs]
      exact hu

/-! ## reading a file -/

/-- nothing is registered from one state to another -/
def World.Alike (w u : World) : Prop := w.Registered w.classes [] u

theorem World.Alike.trans {w u v : World} (h : w.Alike u) (h' : u.Alike v) : w.Alike v := by
  have := Registered.trans h h'
  rwa [h.classes] at this

theorem World.alike_refl (w : World) : w.Alike w := ⟨rfl, rfl, rfl⟩

theorem World.alike_close (w : World) (cell : Nat) : w.Alike (w.close cell) := by
  have h : w.Alike (w.flush cell) := by
    unfold World.flush
    dsimp only
    split
    · exact w.alike_refl
    · exact ⟨rfl, rfl, rfl⟩
  exact ⟨h.classes, h.functions, h.globals⟩

theorem World.alike_settle (w : World) (key : String) : w.Alike (w.settle key) := by
  have h : ∀ (cells : List Nat) (u : World), w.Alike u → w.Alike (cells.foldl World.close u) := by
    intro cells
    induction cells with
    | nil => exact fun u hu => hu
    | cons cell cells ih => exact fun u hu => ih _ (hu.trans (u.alike_close cell))
  unfold World.settle
  split
  · exact w.alike_refl
  · exact h _ w w.alike_refl

namespace Exec

variable {α β : Type}

/-- an evaluation that registers nothing when it gives a value -/
def OnlyReads (x : Exec α) : Prop := ∀ w a u, x w = .ok a u → w.Alike u

theorem onlyReads_pure (a : α) : OnlyReads (pure a : Exec α) := by
  intro w b u h
  cases h
  exact w.alike_refl

theorem onlyReads_fail (f : Fault) : OnlyReads (fail f : Exec α) := by
  intro w b u h
  cases h

theorem onlyReads_get : OnlyReads get := by
  intro w b u h
  cases h
  exact w.alike_refl

theorem onlyReads_bind {x : Exec α} {f : α → Exec β} (hx : x.OnlyReads) (hf : ∀ a, (f a).OnlyReads) :
    (x >>= f).OnlyReads := by
  intro w b u h
  obtain ⟨a, v, hv, hu⟩ := bind_ok h
  exact (hx w a v hv).trans (hf a v b u hu)

theorem onlyReads_ofExcept (e : Except Fault α) : OnlyReads (ofExcept e) := by
  cases e with
  | ok a => exact onlyReads_pure a
  | error f => exact onlyReads_fail f

theorem onlyReads_readWhole (path : String) : OnlyReads (readWhole path) := by
  refine onlyReads_bind (onlyReads_bind onlyReads_get fun _ => onlyReads_ofExcept _) fun key => ?_
  refine onlyReads_bind (fun w _ u h => ?_) fun _ => onlyReads_bind onlyReads_get fun _ => onlyReads_pure _
  cases h
  exact w.alike_settle key

end Exec

theorem onlyReads_readSource (path : String) (missing : Fault) : OnlyReads (readSource path missing) := by
  refine onlyReads_bind onlyReads_get fun w => ?_
  split
  · exact onlyReads_fail _
  · exact onlyReads_fail _
  · exact onlyReads_readWhole path

theorem onlyReads_parseProgram (source : String) : OnlyReads (parseProgram source) := by
  unfold parseProgram
  split
  · exact onlyReads_pure _
  · exact onlyReads_fail _

theorem onlyReads_includedProgram (name : String) : OnlyReads (includedProgram name) := by
  have hdir : OnlyReads programDirectory := by
    refine onlyReads_bind onlyReads_get fun w => ?_
    dsimp only
    split
    · exact onlyReads_pure _
    · exact onlyReads_fail _
    · exact onlyReads_fail _
  refine onlyReads_bind hdir fun dir => onlyReads_bind onlyReads_get fun w => ?_
  exact onlyReads_bind (onlyReads_readSource _ _) fun source => onlyReads_parseProgram source

theorem onlyReads_moduleProgram (name : String) : OnlyReads (moduleProgram [.str name]) := by
  have hpath : OnlyReads (modulePath name) := by
    unfold modulePath
    dsimp only
    split
    · refine onlyReads_bind onlyReads_get fun w => ?_
      split
      · exact onlyReads_pure _
      · exact onlyReads_fail _
    · exact onlyReads_pure _
  refine onlyReads_bind hpath fun path => ?_
  exact onlyReads_bind (onlyReads_readSource _ _) fun source => onlyReads_parseProgram source

theorem exec_include_call (n : Nat) {w : World} (name : String)
    (h : (w.scope w.globals).find? "include" = some (.builtin .load)) :
    (machine (n + 2)).exec (.call (.var "include") [.str name] []) w.globals w = includeModule [.str name] w := by
  have hf : (machine (n + 1)).exec (.var "include") w.globals w = .ok (.builtin .load) w := by
    show lookup w.globals "include" w = _
    rw [lookup, bind_run, get_run]
    simp only [h]
    rfl
  have ha : evalArguments (machine (n + 1)) w.globals ⟨[], .empty⟩ [.str name] w =
      .ok ⟨[.str name], .empty⟩ w := rfl
  show evalCall (machine (n + 1)) w.globals (.var "include") [.str name] [] w = _
  rw [evalCall, bind_run, evalCallee_var, bind_run, hf]
  dsimp only [pure_run]
  rw [applyCall, bind_run, ha]
  rfl

/-! ## both ways -/

section
variable {cs : List (ClassDecl Node)} {fs : List (Method Node)} {w u : World}

theorem exec_include_statement (n : Nat) {path : String}
    (h : includedProgram path w = .ok (cs.map .classDef ++ fs.map .define) u) :
    ∃ v, (machine (n + 2)).exec (.includeFile path) w.globals w = .ok .null v ∧
      w.Registered ((attachments (w.functions.size + (allMethodsIn cs).length) fs).foldl ClassTable.attach
        (w.classes.update ⟨entriesIn none w.functions.size cs⟩)) (allMethodsIn cs ++ fs) v := by
  have hu : w.Registered w.classes [] u := onlyReads_includedProgram path w _ u h
  obtain ⟨v₁, u₁, hr₁, hc⟩ := runBlock_classes n cs (fs.map .define) .null u
  obtain ⟨v₂, u₂, hr₂, hf⟩ := runBlock_functions n fs v₁ u₁
  rw [hc.globals] at hr₂
  refine ⟨u₂, ?_, ?_⟩
  · show includeInPlace (machine (n + 1)) path w.globals w = _
    rw [includeInPlace_eq, bind_run, h]
    dsimp only
    rw [← hu.globals, bind_run, hr₁, hr₂]
    rfl
  · have := hu.trans (hc.trans hf)
    rw [hc.classes, hc.size, hu.classes, hu.size] at this
    exact this

/-- the call, on classes and then functions -/
theorem includeModule_run {name : String}
    (h : moduleProgram [.str name] w = .ok (cs.map .classDef ++ fs.map .define) u) :
    ∃ d v, includeModule [.str name] w = .ok d v ∧
      w.Registered (w.classes.update
        ((attachments (w.functions.size + (allMethodsIn cs).length) fs).foldl ClassTable.attachKnown
          (ClassTable.empty.update ⟨entriesIn none w.functions.size cs⟩))) (allMethodsIn cs ++ fs) v := by
  have hu : w.Registered w.classes [] u := onlyReads_moduleProgram name w _ u h
  obtain ⟨d₁, u₁, hr₁, hc⟩ := moduleClasses_run .empty .empty cs fs u
  obtain ⟨d₂, u₂, hr₂, hf⟩ :=
    moduleFunctions_run (ClassTable.empty.update ⟨entriesIn none u.functions.size cs⟩) d₁ fs u₁
  rw [hc.globals] at hr₂
  have hall := hu.trans (hc.trans hf)
  refine ⟨.dict u₂.dicts.size,
    { u₂ with
      classes := u₂.classes.update ((attachments u₁.functions.size fs).foldl ClassTable.attachKnown
        (ClassTable.empty.update ⟨entriesIn none u.functions.size cs⟩))
      dicts := u₂.dicts.push d₂ }, ?_, ?_, hall.functions, hall.globals⟩
  · rw [includeModule_eq, bind_run, h]
    dsimp only
    rw [moduleMembers, bind_run, get_run]
    dsimp only
    rw [bind_run, hr₁]
    dsimp only
    rw [moduleFunctions_classes, bind_run, hr₂]
    rfl
  · rw [hall.classes, hc.classes, hu.classes, hc.size, hu.size]
    rfl

/-- Both ways to include a file of classes followed by functions give a value, and make the same functions.
The table that the statement leaves is that of the call with the functions attached whose class is
not in the file; where every dotted name is that of a class of the file, the tables are equal. -/
theorem includes_agree (n : Nat) {name path : String} {u' : World}
    (hbound : (w.scope w.globals).find? "include" = some (.builtin .load))
    (hcall : moduleProgram [.str name] w = .ok (cs.map .classDef ++ fs.map .define) u)
    (hstatement : includedProgram path w = .ok (cs.map .classDef ++ fs.map .define) u') :
    ∃ d called stated,
      (machine (n + 2)).exec (.call (.var "include") [.str name] []) w.globals w = .ok d called ∧
      (machine (n + 2)).exec (.includeFile path) w.globals w = .ok .null stated ∧
      stated.functions = called.functions ∧
      stated.classes =
        ((attachments (w.functions.size + (allMethodsIn cs).length) fs).filter
          (·.className ∉ fullNamesIn none cs)).foldl ClassTable.attach called.classes ∧
      ((∀ f ∈ fs, ∀ className method, splitMethodName f.name = some (className, method) →
        className ∈ fullNamesIn none cs) → stated.classes = called.classes) := by
  obtain ⟨d, called, hc, hcalled⟩ := includeModule_run hcall
  obtain ⟨stated, hs, hstated⟩ := exec_include_statement n hstatement
  have hdistinct : ClassTable.empty.Distinct := List.nodup_nil
  have hnames : ∀ className, className ∈ (ClassTable.empty.update
      ⟨entriesIn none w.functions.size cs⟩).names ↔ className ∈ fullNamesIn none cs := by
    intro className
    rw [ClassTable.mem_names_update, entriesIn_names]
    simp [ClassTable.names, ClassTable.empty]
  have hclasses : stated.classes =
      ((attachments (w.functions.size + (allMethodsIn cs).length) fs).filter
        (·.className ∉ fullNamesIn none cs)).foldl ClassTable.attach called.classes := by
    have hupdate : w.classes.update ⟨entriesIn none w.functions.size cs⟩ =
        w.classes.update (ClassTable.empty.update ⟨entriesIn none w.functions.size cs⟩) :=
      (ClassTable.update_update w.classes hdistinct _).symm
    rw [hstated.classes, hcalled.classes, hupdate,
      ClassTable.foldl_attach_update w.classes (hdistinct.update _)]
    simp only [hnames]
  refine ⟨d, called, stated, ?_, hs, hstated.functions.trans hcalled.functions.symm, hclasses, ?_⟩
  · rw [exec_include_call n name hbound, hc]
  · intro hknown
    rw [hclasses, List.filter_eq_nil_iff.2]
    · rfl
    · intro a ha
      obtain ⟨f, hf, hsplit⟩ := mem_attachments ha
      simpa using hknown f hf _ _ hsplit

end

def World.withFile (text : String) : World := World.start ["main.py", "prog.fn"] [] ⟨[("lib.fn", text)]⟩ "main"

section
variable {text : String} {body : List Node}

theorem locate_file (text : String) : (World.withFile text).disk.locate "lib.fn" = .file "lib.fn" := by
  have hempty : ("lib.fn".isEmpty || "lib.fn".startsWith "/") = false := by decide +kernel
  have hparts : Path.parts "lib.fn".toList = [['l', 'i', 'b', '.', 'f', 'n']] := by decide +kernel
  have hkey : Disk.keyOf [['l', 'i', 'b', '.', 'f', 'n']] = "lib.fn" := by decide +kernel
  rw [Disk.locate, hempty, hparts]
  simp [Disk.follow, Disk.isFile, World.withFile, World.start, hkey]

theorem readSource_file (htext : lineEnds text = text) (missing : Fault) :
    readSource "lib.fn" missing (World.withFile text) = .ok text (World.withFile text) := by
  have hread : (World.withFile text).disk.toRead "lib.fn" = .ok "lib.fn" := by
    have hnull : "lib.fn".toList.contains '\x00' = false := by decide +kernel
    rw [Disk.toRead, hnull, locate_file]
    rfl
  rw [readSource, bind_run, get_run]
  simp only [hread]
  rw [readWhole, bind_run, query, bind_run, get_run]
  simp only [hread]
  show EStateM.Result.ok (lineEnds text) (World.withFile text) = _
  rw [htext]

variable (htext : lineEnds text = text) (hp : parseSource text = .ok body)
include htext hp

theorem moduleProgram_file :
    moduleProgram [.str "lib.fn"] (World.withFile text) = .ok body (World.withFile text) := by
  have hext : "lib.fn".endsWith ".fn" = true := by decide +kernel
  have hpath : modulePath "lib.fn" (World.withFile text) = .ok "lib.fn" (World.withFile text) := by
    unfold modulePath
    rw [if_pos hext]
    rfl
  rw [moduleProgram, bind_run, hpath]
  dsimp only
  rw [bind_run, readSource_file htext]
  dsimp only
  rw [parseProgram, hp]
  rfl

theorem includedProgram_file :
    includedProgram "lib.fn" (World.withFile text) = .ok body (World.withFile text) := by
  have hdir : programDirectory (World.withFile text) = .ok "" (World.withFile text) := rfl
  have hpath : Path.normal (Path.join "" "lib.fn") = "lib.fn" := by decide +kernel
  have hthere : (World.withFile text).disk.pathExists "lib.fn" = true := by rw [Disk.pathExists, locate_file]
  rw [includedProgram, bind_run, hdir]
  dsimp only
  rw [hpath, bind_run, get_run]
  simp only [hthere, if_true]
  rw [bind_run, readSource_file htext]
  dsimp only
  rw [parseProgram, hp]
  rfl

end

/-- a file with a class in a class, and a method that is attached later:
`class A { class B(A) { } } def A.m() { }` -/
def shelf : String := "class A \x7b class B(A) \x7b \x7d \x7d def A.m() \x7b \x7d"

def shelfClasses : List (ClassDecl Node) := [.mk "A" [] [] [] [.mk "B" ["A"] [] [] []]]

def shelfFunctions : List (Method Node) := [⟨"A.m", [.receiver], []⟩]

/-- a state with that file -/
def World.withShelf : World := World.start ["main.py", "prog.fn"] [] ⟨[("lib.fn", shelf)]⟩ "main"

theorem parseSource_shelf : parseSource shelf =
    .ok (shelfClasses.map .classDef ++ shelfFunctions.map .define) := by
  have ht : tokenize shelf = [⟨.keyword, "class"⟩, ⟨.ident, "A"⟩, ⟨.symbol, "\x7b"⟩, ⟨.keyword, "class"⟩,
      ⟨.ident, "B"⟩, ⟨.symbol, "("⟩, ⟨.ident, "A"⟩, ⟨.symbol, ")"⟩, ⟨.symbol, "\x7b"⟩, ⟨.symbol, "\x7d"⟩,
      ⟨.symbol, "\x7d"⟩, ⟨.keyword, "def"⟩, ⟨.ident, "A"⟩, ⟨.symbol, "."⟩, ⟨.ident, "m"⟩, ⟨.symbol, "("⟩,
      ⟨.symbol, ")"⟩, ⟨.symbol, "\x7b"⟩, ⟨.symbol, "\x7d"⟩] := by decide +kernel
  rw [parseSource, ht]
  rfl

theorem lineEnds_shelf : lineEnds shelf = shelf := by decide +kernel

theorem moduleProgram_shelf : moduleProgram [.str "lib.fn"] World.withShelf =
    .ok (shelfClasses.map .classDef ++ shelfFunctions.map .define) World.withShelf :=
  moduleProgram_file lineEnds_shelf parseSource_shelf

theorem includedProgram_shelf : includedProgram "lib.fn" World.withShelf =
    .ok (shelfClasses.map .classDef ++ shelfFunctions.map .define) World.withShelf :=
  includedProgram_file lineEnds_shelf parseSource_shelf

theorem includes_agree_shelf : ∃ d called stated,
    (machine 2).exec (.call (.var "include") [.str "lib.fn"] []) 0 World.withShelf = .ok d called ∧
    (machine 2).exec (.includeFile "lib.fn") 0 World.withShelf = .ok .null stated ∧
    stated.functions = called.functions ∧ stated.classes = called.classes := by
  obtain ⟨d, called, stated, hc, hs, hf, -, ht⟩ :=
    includes_agree 0 (by decide +kernel) moduleProgram_shelf includedProgram_shelf
  refine ⟨d, called, stated, hc, hs, hf, ht fun f hm className method hsplit => ?_⟩
  obtain rfl := List.mem_singleton.1 hm
  have hname : splitMethodName "A.m" = some ("A", "m") := by decide +kernel
  obtain ⟨rfl, rfl⟩ := Prod.mk.inj (Option.some.inj (hname.symm.trans hsplit))
  decide +kernel

end BraceScript
