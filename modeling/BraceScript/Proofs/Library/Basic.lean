import BraceScript.Proofs.Simulation.Machine

/-!
# The states after an inclusion

A library is a file of classes and functions. Here is what a state is after the two ways to include one, in all
detail: a statement makes the functions in the order of the file, a call makes those of the classes first.

* `Definition`             a class or a function of a file
* `World.included`         the state after a call, with the library under a name
* `World.stated`           the state after a statement, with the names of the library
* `exec_assign_include`, `exec_includeFile`   these are the states
-/

namespace BraceScript

open Exec

/-! ## definitions -/

/-- a statement that defines a class or a function -/
inductive Definition
  | classDecl (c : ClassDecl Node)
  | function (f : Method Node)

namespace Definition

/-- the statement -/
def node : Definition → Node
  | classDecl c => .classDef c
  | function f => .define f

/-- the name that a definition binds; a function with a dotted name belongs to a class -/
def name? : Definition → Option String
  | classDecl c => some c.name
  | function f => if (splitMethodName f.name).isNone then some f.name else none

end Definition

def boundNames (ds : List Definition) : List String := ds.filterMap Definition.name?

def classesOf : List Definition → List (ClassDecl Node)
  | [] => []
  | .classDecl c :: ds => c :: classesOf ds
  | .function _ :: ds => classesOf ds

def functionsOf : List Definition → List (Method Node)
  | [] => []
  | .classDecl _ :: ds => functionsOf ds
  | .function f :: ds => f :: functionsOf ds

/-- the functions of a file with those of its classes, in order -/
def methodsOf : List Definition → List (Method Node)
  | [] => []
  | .classDecl c :: ds => c.allMethods ++ methodsOf ds
  | .function f :: ds => f :: methodsOf ds

def addConstructors (included : Bool) (fs : Array Callable) (cs : List (ClassDecl Node)) : Array Callable :=
  cs.foldl (fun fs c => fs.push (constructorOf included c)) fs

/-- classes by name, when their constructors get cells in order from a given one -/
def classMembers (cell : Nat) : List (ClassDecl Node) → List (String × Value)
  | [] => []
  | c :: cs => (c.name, .callable cell) :: classMembers (cell + 1) cs

/-- functions by name, when they get cells in order from a given one -/
def functionMembers (cell : Nat) : List (Method Node) → List (String × Value)
  | [] => []
  | f :: fs => match splitMethodName f.name with
    | some _ => functionMembers (cell + 1) fs
    | none => (f.name, .function cell) :: functionMembers (cell + 1) fs

/-- classes and functions by name, when functions and constructors get cells in order from given ones -/
def fileMembers (cell constructor : Nat) : List Definition → List (String × Value)
  | [] => []
  | .classDecl c :: ds =>
    (c.name, .callable constructor) :: fileMembers (cell + c.allMethods.length) (constructor + 1) ds
  | .function f :: ds => match splitMethodName f.name with
    | some _ => fileMembers (cell + 1) constructor ds
    | none => (f.name, .function cell) :: fileMembers (cell + 1) constructor ds

/-- the class table after the definitions of a file, in order, when functions get cells from a given one -/
def fileTable (cell : Nat) (t : ClassTable) : List Definition → ClassTable
  | [] => t
  | .classDecl c :: ds => fileTable (cell + c.allMethods.length) (t.update ⟨c.entries none cell⟩) ds
  | .function f :: ds => fileTable (cell + 1) ((attachments cell [f]).foldl ClassTable.attach t) ds

/-- the class table of a library: its classes, with the functions that belong to them -/
def libraryTable (cell : Nat) (ds : List Definition) : ClassTable :=
  (attachments (cell + (allMethodsIn (classesOf ds)).length) (functionsOf ds)).foldl ClassTable.attachKnown
    (ClassTable.empty.update ⟨entriesIn none cell (classesOf ds)⟩)

/-- the members of a library: its classes and functions by name, when constructors and functions get cells in
order from given ones -/
def libraryDict (constructor cell : Nat) (ds : List Definition) : Dict :=
  (Dict.empty.putAll (classMembers constructor (classesOf ds))).putAll (functionMembers cell (functionsOf ds))

namespace World

/-- the state after a library has been included by a call and bound to a name -/
def included (w : World) (name : String) (ds : List Definition) : World :=
  { w with
    functions := addClosures w.globals w.functions (allMethodsIn (classesOf ds) ++ functionsOf ds)
    callables := addConstructors true w.callables (classesOf ds)
    classes := w.classes.update (libraryTable w.functions.size ds)
    dicts := w.dicts.push
      (libraryDict w.callables.size (w.functions.size + (allMethodsIn (classesOf ds)).length) ds)
    scopes := w.scopes.modify w.globals (·.insert name (.dict w.dicts.size)) }

/-- the state after a library has been included by a statement -/
def stated (w : World) (ds : List Definition) : World :=
  { w with
    functions := addClosures w.globals w.functions (methodsOf ds)
    callables := addConstructors false w.callables (classesOf ds)
    classes := fileTable w.functions.size w.classes ds
    scopes := w.scopes.modify w.globals (·.putAll (fileMembers w.functions.size w.callables.size ds)) }

end World

theorem size_addConstructors (included : Bool) (fs : Array Callable) (cs : List (ClassDecl Node)) :
    (addConstructors included fs cs).size = fs.size + cs.length := by
  induction cs generalizing fs with
  | nil => rfl
  | cons c cs ih =>
    have hrest := ih (fs.push (constructorOf included c))
    rw [Array.size_push] at hrest
    rw [List.length_cons, Nat.add_comm cs.length, ← Nat.add_assoc]
    exact hrest

/-! ## a call collects the definitions -/

theorem collectClasses_run (t : ClassTable) (d : Dict) (ds : List Definition) (w : World) :
    moduleClasses w.globals t d (ds.map Definition.node) w =
      .ok (t.update ⟨entriesIn none w.functions.size (classesOf ds)⟩,
          d.putAll (classMembers w.callables.size (classesOf ds)))
        { w with
          functions := addClosures w.globals w.functions (allMethodsIn (classesOf ds))
          callables := addConstructors true w.callables (classesOf ds) } := by
  induction ds generalizing t d w with
  | nil => rfl
  | cons e ds ih =>
    cases e with
    | function f => exact ih t d w
    | classDecl c =>
      have hrest := ih (t.update ⟨c.entries none w.functions.size⟩)
        (d.insert (.str c.name) (.callable w.callables.size))
        { w with
          functions := addClosures w.globals w.functions c.allMethods
          callables := w.callables.push (constructorOf true c) }
      rw [List.map_cons, Definition.node, moduleClasses, bind_run, registerClass_run]
      refine Eq.trans hrest ?_
      simp only [classesOf, entriesIn, classMembers, allMethodsIn_cons, size_addClosures, Array.size_push,
        ClassTable.update_append, addClosures_append]
      rfl

theorem collectFunctions_run (t : ClassTable) (d : Dict) (ds : List Definition) (w : World) :
    moduleFunctions w.globals t d (ds.map Definition.node) w =
      .ok ((attachments w.functions.size (functionsOf ds)).foldl ClassTable.attachKnown t,
          d.putAll (functionMembers w.functions.size (functionsOf ds)))
        { w with functions := addClosures w.globals w.functions (functionsOf ds) } := by
  induction ds generalizing t d w with
  | nil => rfl
  | cons e ds ih =>
    cases e with
    | classDecl c => exact ih t d w
    | function f =>
      rw [List.map_cons, Definition.node, moduleFunctions, functionsOf, attachments, functionMembers]
      cases hs : splitMethodName f.name with
      | none =>
        have hrest := ih t (d.insert (.str f.name) (.function w.functions.size))
          { w with functions := w.functions.push ⟨f.params, f.body, w.globals⟩ }
        rw [Array.size_push] at hrest
        exact hrest
      | some p =>
        have hrest := ih (t.attachKnown ⟨p.1, p.2, w.functions.size⟩) d
          { w with functions := w.functions.push ⟨f.params, f.body, w.globals⟩ }
        rw [Array.size_push] at hrest
        exact hrest

/-- a call of `include` whose value is bound to a name -/
theorem exec_assign_include (n : Nat) {w : World} {file : String} {ds : List Definition} (name : String)
    (hbound : (w.scope w.globals).find? "include" = some (.builtin .load))
    (hread : moduleProgram [.str file] w = .ok (ds.map Definition.node) w) :
    (machine (n + 3)).exec (.assign name (.call (.var "include") [.str file] [])) w.globals w =
      .ok (.dict w.dicts.size) (w.included name ds) := by
  show ((machine (n + 2)).exec (.call (.var "include") [.str file] []) w.globals >>= fun v =>
    bindName w.globals name v >>= fun _ => pure v) w = _
  rw [bind_run, exec_include_call n file hbound, includeModule_eq, bind_run, hread]
  dsimp only
  rw [moduleMembers, bind_run, get_run]
  dsimp only
  rw [bind_run, collectClasses_run]
  dsimp only
  rw [bind_run]
  have hfunctions := collectFunctions_run (ClassTable.empty.update ⟨entriesIn none w.functions.size (classesOf ds)⟩)
    (Dict.empty.putAll (classMembers w.callables.size (classesOf ds))) ds
    { w with
      functions := addClosures w.globals w.functions (allMethodsIn (classesOf ds))
      callables := addConstructors true w.callables (classesOf ds) }
  rw [size_addClosures] at hfunctions
  rw [hfunctions]
  simp only [World.included, addClosures_append]
  rfl

/-! ## a statement executes them -/

theorem declareClass_eq (c : ClassDecl Node) (w : World) :
    declareClass c w = .ok .null
      { w with
        functions := addClosures w.globals w.functions c.allMethods
        callables := w.callables.push (constructorOf false c)
        classes := w.classes.update ⟨c.entries none w.functions.size⟩
        scopes := w.scopes.modify w.globals (·.insert c.name (.callable w.callables.size)) } := by
  rw [declareClass, bind_run, get_run]
  dsimp only
  rw [bind_run, registerClass_run]
  rfl

theorem scopes_putAll_nil (scopes : Array Scope) (g : Nat) :
    (scopes.modify g fun s => s.putAll []) = scopes := by
  refine Array.ext_getElem? fun i => ?_
  rw [Array.getElem?_modify]
  split
  · exact Option.map_id'
  · rfl

/-- the state after a definition has been executed -/
theorem exec_definition (n : Nat) (d : Definition) (w : World) :
    (machine (n + 1)).exec d.node w.globals w = .ok .null (w.stated [d]) := by
  cases d with
  | classDecl c =>
    show declareClass c w = _
    rw [declareClass_eq]
    simp only [World.stated, methodsOf, List.append_nil]
    rfl
  | function f =>
    show declareFunction f w.globals w = _
    unfold declareFunction
    simp only [World.stated, methodsOf, fileMembers, fileTable, attachments]
    cases splitMethodName f.name with
    | none => rfl
    | some p => rw [scopes_putAll_nil]; rfl

theorem World.stated_cons (w : World) (d : Definition) (ds : List Definition) :
    (w.stated [d]).stated ds = w.stated (d :: ds) := by
  cases d with
  | classDecl c =>
    simp only [stated, methodsOf, classesOf, fileMembers, fileTable, List.append_nil, addClosures_append,
      size_addClosures, size_addConstructors, List.length_singleton, modify_modify]
    rfl
  | function f =>
    simp only [stated, methodsOf, classesOf, fileMembers, fileTable, size_addClosures, size_addConstructors,
      List.length_singleton, List.length_nil, Nat.add_zero, modify_modify]
    cases splitMethodName f.name <;> rfl

theorem runBlock_definitions (n : Nat) (v : Value) (ds : List Definition) (w : World) :
    ∃ v', runBlock (machine (n + 1)) w.globals v (ds.map Definition.node) w = .ok v' (w.stated ds) := by
  induction ds generalizing v w with
  | nil =>
    have hnil : w.stated [] = w := by
      unfold World.stated
      rw [fileMembers, scopes_putAll_nil]
      rfl
    rw [hnil]
    exact ⟨v, rfl⟩
  | cons d ds ih =>
    obtain ⟨v', hrest⟩ := ih .null (w.stated [d])
    have hplain : d.node.isOrdinary = true := by cases d <;> rfl
    refine ⟨v', ?_⟩
    rw [w.stated_cons] at hrest
    rw [List.map_cons, runBlock_null hplain (exec_definition n d w)]
    exact hrest

theorem exec_includeFile (n : Nat) {w : World} {path : String} {ds : List Definition}
    (hread : includedProgram path w = .ok (ds.map Definition.node) w) :
    (machine (n + 2)).exec (.includeFile path) w.globals w = .ok .null (w.stated ds) := by
  obtain ⟨v, hrun⟩ := runBlock_definitions n .null ds w
  show includeInPlace (machine (n + 1)) path w.globals w = _
  rw [includeInPlace_eq, bind_run, hread]
  dsimp only
  rw [bind_run, hrun]
  rfl

/-! ## reading a file -/

namespace Exec

variable {α β : Type} {w : World}

/-- an evaluation that leaves a state as it is, if it gives a value -/
def Keeps (w : World) (x : Exec α) : Prop := ∀ a u, x w = .ok a u → u = w

theorem keeps_pure (a : α) : Keeps w (pure a : Exec α) := by
  intro b u h
  cases h
  rfl

theorem keeps_fail (f : Fault) : Keeps w (fail f : Exec α) := by
  intro b u h
  cases h

theorem keeps_bind {x : Exec α} {f : α → Exec β} (hx : Keeps w x) (hf : ∀ a, Keeps w (f a)) :
    Keeps w (x >>= f) := by
  intro b u h
  obtain ⟨a, v, hv, hu⟩ := bind_ok h
  obtain rfl := hx a v hv
  exact hf a b u hu

theorem keeps_read {f : World → Exec β} (hf : Keeps w (f w)) : Keeps w (get >>= f) := hf

theorem keeps_ofExcept (e : Except Fault α) : Keeps w (ofExcept e) := by
  cases e with
  | ok a => exact keeps_pure a
  | error f => exact keeps_fail f

end Exec

section
variable {w : World}

theorem keeps_parseProgram (source : String) : Keeps w (parseProgram source) := by
  unfold parseProgram
  split
  · exact keeps_pure _
  · exact keeps_fail _

variable (hw : w.handles = #[])
include hw

theorem World.settle_eq (key : String) : w.settle key = w := by
  have hnone : w.waiting key = [] := by
    unfold waiting
    rw [hw]
    rfl
  rw [settle, hnone]

/-- with no open file, reading a file leaves the state as it is -/
theorem keeps_readSource (path : String) (missing : Fault) : Keeps w (readSource path missing) := by
  refine keeps_read ?_
  split
  · exact keeps_fail _
  · exact keeps_fail _
  · refine keeps_bind (keeps_read (keeps_ofExcept _)) fun key => keeps_bind (fun _ u h => ?_) fun _ =>
      keeps_read (keeps_pure _)
    cases h
    exact World.settle_eq hw key

theorem keeps_moduleProgram (name : String) : Keeps w (moduleProgram [.str name]) := by
  have hpath : Keeps w (modulePath name) := by
    unfold modulePath
    dsimp only
    split
    · refine keeps_read ?_
      split
      · exact keeps_pure _
      · exact keeps_fail _
    · exact keeps_pure _
  exact keeps_bind hpath fun path => keeps_bind (keeps_readSource hw _ _) fun source => keeps_parseProgram source

theorem keeps_includedProgram (name : String) : Keeps w (includedProgram name) := by
  have hdir : Keeps w programDirectory := by
    refine keeps_read ?_
    dsimp only
    split
    · exact keeps_pure _
    · exact keeps_fail _
    · exact keeps_fail _
  refine keeps_bind hdir fun dir => keeps_read ?_
  exact keeps_bind (keeps_readSource hw _ _) fun source => keeps_parseProgram source

end

end BraceScript
