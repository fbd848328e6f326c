import BraceScript.Proofs.Exec.Law

/-!
# Parts of programs that leave scopes alone

Reading trees, running embedded statements, registering classes, loading modules and binding arguments
only read scopes. Of these, only classes and modules make functions and constructors, and the trees of
their code are those of the program.

* `quiet_readTree`            a value is read as a tree
* `steady_runStatements`      embedded statements run on variables of their own
* `lawful_registerClass`      classes are registered in the class table
* `includedProgram`, `moduleProgram`   the statements of a file that is included
* `steady_callScope`          the scope of a call is made, not yet entered
-/

namespace BraceScript

open Exec

/-! ## values read as trees -/

variable (v : Value) (args : List Value)

@[simp] theorem steady_treeParts (count : Nat) : Steady (treeParts v count) := by
  unfold treeParts
  repeat' first | split | with_reducible refine steady_bind ?_ fun _ => ?_
  all_goals simp

@[simp] theorem steady_treePart (i : Nat) : Steady (treePart v i) := by
  exact steady_element _ _

@[simp] theorem steady_treeList : Steady (treeList v) := by
  unfold treeList
  repeat' first | split | with_reducible refine steady_bind ?_ fun _ => ?_
  all_goals simp

@[simp] theorem steady_treeOption : Steady (treeOption v) := by
  unfold treeOption
  repeat' first | split | with_reducible refine steady_bind ?_ fun _ => ?_
  all_goals simp

@[simp] theorem quiet_treeName (whole v : Value) : Quiet (treeName whole v) := by
  unfold treeName
  repeat' first | split | with_reducible refine quiet_bind ?_ fun _ => ?_
  all_goals simp

@[simp] theorem steady_treeBody : Steady (treeBody v) := by
  unfold treeBody
  repeat' first | split | with_reducible refine steady_bind ?_ fun _ => ?_
  all_goals simp

@[simp] theorem steady_treePairs : Steady (treePairs v) := by
  refine steady_bind (steady_items v) fun ps => steady_mapM (fun p => ?_) ps
  refine steady_bind (steady_treeParts p 2) fun parts => ?_
  split <;> simp

@[simp] theorem quiet_treeParams (whole v : Value) : Quiet (treeParams whole v) := by
  refine quiet_bind (steady_items v).quiet fun ps => quiet_mapM (fun p => ?_) ps
  repeat' first | split | with_reducible refine quiet_bind ?_ fun _ => ?_
  all_goals simp

@[simp] theorem steady_treeBranches : Steady (treeBranches v) := by
  refine steady_bind (steady_items v) fun bs => steady_bind (steady_mapM (fun b => ?_) bs) fun _ => steady_pure _
  repeat' first | split | with_reducible refine steady_bind ?_ fun _ => ?_
  all_goals simp

@[simp] theorem steady_treeCases : Steady (treeCases v) := by
  refine steady_bind (steady_treePairs v) fun cs => steady_bind (steady_mapM (fun c => ?_) cs) fun _ => steady_pure _
  repeat' first | split | with_reducible refine steady_bind ?_ fun _ => ?_
  all_goals simp

@[simp] theorem quiet_readStatementTree (kind : String) :
    Quiet (readStatementTree v kind) := by
  unfold readStatementTree
  repeat' first | split | with_reducible refine quiet_bind ?_ fun _ => ?_
  all_goals simp [quiet_map]

@[simp] theorem steady_treeOperator (op : Value) : Steady (treeOperator op) := by
  unfold treeOperator
  repeat' first | split | with_reducible refine steady_bind ?_ fun _ => ?_
  all_goals simp

@[simp] theorem quiet_treeKeywords (whole : Value) (vs : List Value) :
    Quiet (treeKeywords whole vs) := by
  unfold treeKeywords
  split
  · refine quiet_bind steady_get.quiet fun w => quiet_mapM (fun p => ?_) _
    exact quiet_bind (quiet_treeName whole p.1) fun _ => (steady_pure _).quiet
  · exact quiet_fail _
  · exact (steady_pure _).quiet

@[simp] theorem quiet_readUpdateTree (kind : String) :
    Quiet (readUpdateTree v kind) := by
  unfold readUpdateTree
  repeat' first | split | with_reducible refine quiet_bind ?_ fun _ => ?_
  all_goals simp

@[simp] theorem quiet_readCollectionTree (kind : String) :
    Quiet (readCollectionTree v kind) := by
  unfold readCollectionTree
  repeat' first | split | with_reducible refine quiet_bind ?_ fun _ => ?_
  all_goals simp

@[simp] theorem quiet_readParts (kind : String) (parts : List Value) :
    Quiet (readParts v kind parts) := by
  unfold readParts
  dsimp only
  repeat' first | split | with_reducible refine quiet_bind ?_ fun _ => ?_
  all_goals simp

@[simp] theorem quiet_readTree (kind : String) : Quiet (readTree v kind) := by
  unfold readTree
  dsimp only
  repeat' first | split | with_reducible refine quiet_bind ?_ fun _ => ?_
  all_goals simp

@[simp] theorem steady_unwrapTree : Steady (unwrapTree v) := by
  unfold unwrapTree
  repeat' first | split | with_reducible refine steady_bind ?_ fun _ => ?_
  all_goals simp

/-! ## embedded statements -/

@[simp] theorem steady_embeddedMissing (name : String) : Steady (embeddedMissing name) := by
  unfold embeddedMissing
  split <;> simp

@[simp] theorem steady_embeddedLookup (vars : EmbeddedVars) (name : String) :
    Steady (embeddedLookup vars name) := by
  unfold embeddedLookup
  repeat' first | split | with_reducible refine steady_bind ?_ fun _ => ?_
  all_goals simp

@[simp] theorem steady_embeddedExpr_eval (vars : EmbeddedVars) (e : EmbeddedExpr) :
    Steady (EmbeddedExpr.eval vars e) := by
  induction e with
  | sum a b iha ihb => exact steady_bind iha fun x => steady_bind ihb fun y => steady_arith .add x y
  | _ => simp [EmbeddedExpr.eval]

@[simp] theorem steady_updateArith (op : ArithOp) (old v : Value) : Steady (updateArith op old v) := by
  refine runs_tryCatch (steady_arith _ _ _) fun s hs => ?_
  split
  · refine steady_fail fun t e => ?_
    unfold updateFault at e
    split at e
    · cases e
    · exact hs.known t (by rw [e])
  · exact steady_throw hs

@[simp] theorem steady_updatedValue (op : ArithOp) (old v : Value) :
    Steady (updatedValue op old v) := by
  unfold updatedValue
  repeat' first | split | with_reducible refine steady_bind ?_ fun _ => ?_
  all_goals simp

@[simp] theorem steady_embeddedPrint (vs : List Value) : Steady (embeddedPrint vs) := by
  fun_induction embeddedPrint vs with
  | case1 => exact steady_write _
  | case2 v => exact steady_bind (steady_plain v) fun _ => steady_write _
  | case3 v vs _ ih =>
    exact steady_bind (steady_plain v) fun _ => steady_bind (steady_write _) fun _ => ih

@[simp] theorem steady_embeddedCall (f : Value) (vs : List Value) : Steady (embeddedCall f vs) := by
  unfold embeddedCall
  split <;> simp

@[simp] theorem steady_take (r : Reading α) : Steady r.take := by
  unfold Reading.take
  split <;> simp

@[simp] theorem steady_embeddedStmt_run (vars : EmbeddedVars) (s : EmbeddedStmt) :
    Steady (EmbeddedStmt.run vars s) := by
  unfold EmbeddedStmt.run
  repeat' first | split | with_reducible refine steady_bind ?_ fun _ => ?_
  all_goals simp [steady_mapM]

@[simp] theorem steady_runStatements (vars : EmbeddedVars) (ss : List String) :
    Steady (runStatements vars ss) := by
  induction ss generalizing vars with
  | nil => exact steady_pure vars
  | cons s ss ih =>
    exact steady_bind (steady_take _) fun e => steady_bind (steady_embeddedStmt_run vars e) fun vars => ih vars

/-! ## classes -/

section
variable {L : Law}

theorem lawful_makeMethods (globals : Nat) {ms : List (Method Node)}
    (hm : ∀ m ∈ ms, ∀ t ∈ m.steps, t.Obeys L false) (made : List (String × Nat)) :
    Lawful L (makeMethods globals ms made) := by
  induction ms generalizing made with
  | nil => exact (steady_pure made).lawful
  | cons m ms ih =>
    refine lawful_bind (lawful_newFunction (hm m List.mem_cons_self)) fun cell => ?_
    exact ih (fun n hn => hm n (List.mem_cons_of_mem m hn)) _

mutual

theorem lawful_registerClass (globals : Nat) (outer : Option String) (t : ClassTable)
    (c : ClassDecl Node) (hc : ∀ d ∈ c.classes, ∀ m ∈ d.methods, ∀ t ∈ m.steps, t.Obeys L false) :
    Lawful L (registerClass globals outer t c) := by
  cases c with
  | mk name parents fields methods nested =>
    rw [ClassDecl.classes, List.forall_mem_cons] at hc
    unfold registerClass
    exact lawful_bind (lawful_makeMethods globals hc.1 []) fun made =>
      lawful_registerClasses globals _ _ nested hc.2

theorem lawful_registerClasses (globals : Nat) (outer : String) (t : ClassTable)
    (cs : List (ClassDecl Node))
    (hc : ∀ d ∈ classesIn cs, ∀ m ∈ d.methods, ∀ t ∈ m.steps, t.Obeys L false) :
    Lawful L (registerClasses globals outer t cs) := by
  cases cs with
  | nil =>
    unfold registerClasses
    exact (steady_pure t).lawful
  | cons c cs =>
    rw [classesIn, List.forall_mem_append] at hc
    unfold registerClasses
    exact lawful_bind (lawful_registerClass globals (some outer) t c hc.1) fun t =>
      lawful_registerClasses globals outer t cs hc.2

end

end

/-! ## files of program text -/

@[simp] theorem steady_parseProgram (source : String) : Steady (parseProgram source) := by
  unfold parseProgram
  repeat' first | split | with_reducible refine steady_bind ?_ fun _ => ?_
  all_goals simp

theorem steady_readSource (path : String) {missing : Fault} (h : ∀ t, missing ≠ .unknownNode t) :
    Steady (readSource path missing) := by
  refine steady_bind steady_get fun w => ?_
  have hr := known_toRead w.disk path
  split
  · exact steady_fail h
  · rename_i f hf
    exact steady_fail (Fault.ne_unknownNode (hr _ hf))
  · exact steady_readWhole path

@[simp] theorem steady_programDirectory : Steady programDirectory := by
  unfold programDirectory
  dsimp only
  repeat' first | split | with_reducible refine steady_bind ?_ fun _ => ?_
  all_goals simp

@[simp] theorem steady_modulePath (name : String) : Steady (modulePath name) := by
  unfold modulePath
  dsimp only
  repeat' first | split | with_reducible refine steady_bind ?_ fun _ => ?_
  all_goals simp

/-- the statements of a file that a statement includes -/
def includedProgram (name : String) : Exec (List Node) := do
  let beside := Path.normal (Path.join (← programDirectory) name)
  let path := if (← get).disk.pathExists beside then beside else Path.normal name
  let source ← readSource path (.includeMissing name (some path))
  parseProgram source

theorem includeInPlace_eq (m : Machine) (name : String) (s : Nat) :
    includeInPlace m name s = includedProgram name >>= fun body =>
      runBlock m s .null body >>= fun _ => pure .null := by
  simp only [includeInPlace, includedProgram, bind_assoc]

theorem steady_includedProgram (name : String) : Steady (includedProgram name) := by
  refine steady_bind steady_programDirectory fun dir => steady_bind steady_get fun w => ?_
  exact steady_bind (steady_readSource _ nofun) fun source => steady_parseProgram source

/-- the statements of a file that is included by a call -/
def moduleProgram (args : List Value) : Exec (List Node) := do
  match args with
  | [] => fail (.indexRange "list")
  | .str name :: _ =>
    let path ← modulePath name
    let source ← readSource path (.includeMissing path none)
    parseProgram source
  | v :: _ => fail (.lacksAttribute v.kindName "endswith")

theorem steady_moduleProgram : Steady (moduleProgram args) := by
  unfold moduleProgram
  split
  · exact steady_fail nofun
  · refine steady_bind (steady_modulePath _) fun path => ?_
    exact steady_bind (steady_readSource _ nofun) fun source => steady_parseProgram source
  · exact steady_fail nofun

/-- the classes and functions of a program as a dictionary -/
def moduleMembers (body : List Node) : Exec Value := do
  let globals := (← get).globals
  let (t, d) ← moduleClasses globals .empty .empty body
  let (t, d) ← moduleFunctions globals t d body
  modify fun w => { w with classes := w.classes.update t }
  newDict d

theorem includeModule_eq :
    includeModule args = moduleProgram args >>= moduleMembers := by
  cases args with
  | nil => rfl
  | cons v rest =>
    cases v with
    | str name =>
      simp only [moduleProgram, bind_assoc]
      rfl
    | _ => rfl

section
variable {L : Law}

theorem lawful_moduleClasses (globals : Nat) (t : ClassTable) (d : Dict)
    {body : List Node} (hb : ∀ t ∈ blockSteps body, t.Obeys L false) :
    Lawful L (moduleClasses globals t d body) := by
  induction body generalizing t d with
  | nil => exact (steady_pure _).lawful
  | cons s body ih =>
    rw [blockSteps_cons, List.forall_mem_append] at hb
    cases s with
    | classDef c =>
      have hc : (Node.classDef c).Obeys L false := hb.1 _ List.mem_cons_self
      refine lawful_bind (lawful_registerClass globals none t c hc.methods) fun t => ?_
      exact lawful_bind (lawful_newCallable (constructorOf_obeys hc true)) fun made =>
        ih _ _ hb.2
    | _ => exact ih t d hb.2

theorem lawful_moduleFunctions (globals : Nat) (t : ClassTable) (d : Dict) {body : List Node}
    (hb : ∀ t ∈ blockSteps body, t.Obeys L false) : Lawful L (moduleFunctions globals t d body) := by
  induction body generalizing t d with
  | nil => exact (steady_pure _).lawful
  | cons s body ih =>
    rw [blockSteps_cons, List.forall_mem_append] at hb
    cases s with
    | define f =>
      have hf : (Node.define f).Obeys L false := hb.1 _ List.mem_cons_self
      refine lawful_bind (lawful_newFunction fun t ht => hf.units ht) fun cell => ?_
      split <;> exact ih _ _ hb.2
    | _ => exact ih t d hb.2

theorem lawful_moduleMembers {body : List Node}
    (hb : ∀ t ∈ blockSteps body, t.Obeys L false) : Lawful L (moduleMembers body) := by
  refine lawful_bind steady_get.lawful fun w => ?_
  refine lawful_bind (lawful_moduleClasses _ _ _ hb) fun c => ?_
  refine lawful_bind (lawful_moduleFunctions _ _ _ hb) fun f => ?_
  refine lawful_bind (Steady.lawful (steady_modify fun _ => ?_)) fun _ => (steady_newDict _).lawful
  exact .of_eq rfl rfl rfl rfl rfl

end

/-! ## arguments and calls -/

@[simp] theorem steady_twoArguments : Steady (twoArguments args) := by
  unfold twoArguments
  repeat' first | split | with_reducible refine steady_bind ?_ fun _ => ?_
  all_goals simp

@[simp] theorem steady_unmarked : Steady (unmarked v) := by
  unfold unmarked
  repeat' first | split | with_reducible refine steady_bind ?_ fun _ => ?_
  all_goals simp

@[simp] theorem steady_addUnpacked (a : Arguments) (v : Value) : Steady (addUnpacked a v) := by
  unfold addUnpacked
  repeat' first | split | with_reducible refine steady_bind ?_ fun _ => ?_
  all_goals simp

theorem steady_addKeywords (a : Arguments) {f : Fault} (h : ∀ t, f ≠ .unknownNode t) (v : Value) :
    Steady (addKeywords a f v) := by
  unfold addKeywords
  split
  · exact steady_bind steady_get fun _ => steady_pure _
  · exact steady_fail h

@[simp] theorem steady_isMarked : Steady (isMarked v) := by
  unfold isMarked
  repeat' first | split | with_reducible refine steady_bind ?_ fun _ => ?_
  all_goals simp

@[simp] theorem steady_constructParts (className : String) (c : ClassInfo) (args : List Value) :
    Steady (constructParts className c args) := by
  unfold constructParts
  dsimp only
  repeat' first | split | with_reducible refine steady_bind ?_ fun _ => ?_
  all_goals simp

@[simp] theorem steady_compareValues (op : CompareOp) (a b : Value) :
    Steady (compareValues op a b) := by
  unfold compareValues
  repeat' first | split | with_reducible refine steady_bind ?_ fun _ => ?_
  all_goals simp

@[simp] theorem steady_returned : Steady (returned? v) := by
  unfold returned?
  repeat' first | split | with_reducible refine steady_bind ?_ fun _ => ?_
  all_goals simp

@[simp] theorem steady_callScope (c : Closure) (args : List Value) : Steady (callScope c args) := by
  unfold callScope
  dsimp only
  repeat' first | split | with_reducible refine steady_bind ?_ fun _ => ?_
  all_goals simp

@[simp] theorem steady_stepPlaces (size : Nat) (step : Value) : Steady (stepPlaces size step) := by
  unfold stepPlaces
  repeat' first | split | with_reducible refine steady_bind ?_ fun _ => ?_
  all_goals simp

end BraceScript
