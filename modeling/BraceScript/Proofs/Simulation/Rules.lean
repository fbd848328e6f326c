import BraceScript.Proofs.Exec.CoupledRules
import BraceScript.Proofs.Simulation.Trees

/-!
# The rules simulate themselves

On machines that simulate each other, every rule simulates itself. Only a look at a name that may be bound to
values that do not stand for each other needs care: such a name must not be bound as at the start.

* `Bond.Machines`      machines that simulate each other
* `sim_runBlock`, `sim_callFunction`, ...   blocks and functions
* `sim_construct`, `sim_includeModule`, ... classes and modules
* `sim_evalCall`, `sim_evalFor`, ...        the rules of trees
-/

namespace BraceScript

open Exec

namespace Bond

variable (B : Bond)

/-- trees that stand for each other, or are of one kind with parts that do -/
inductive Code : Node → Node → Prop
  | tree {t t' : Node} (h : B.Tree t t') : Code t t'
  | shape {t t' : Node} (h : B.Shape t t') : Code t t'

/-- machines that simulate each other -/
structure Machines (m m' : Machine) : Prop where
  exec {t t' : Node} {s s' : Nat} : B.Code t t' → B.scopes.Pairs s s' →
    B.Sim B.Val (m.exec t s) (m'.exec t' s')
  call {v v' : Value} {vs vs' : List Value} : B.Val v v' → B.Vals vs vs' →
    B.Sim B.Val (m.call v vs) (m'.call v' vs')
  fuel : m.fuel = m'.fuel

variable {B} {α β : Type} {R : α → β → Prop} {w w' : World} {i j s s' : Nat} {v v' u u' : Value}
  {vs vs' : List Value} {t t' : Node} {ts ts' : List Node} {m m' : Machine} {ps ps' : List (Param Node)}
  {name : String} {o o' : Node}

theorem Machines.tree (hm : B.Machines m m') (ht : B.Tree t t') (hs : B.scopes.Pairs s s') :
    B.Sim B.Val (m.exec t s) (m'.exec t' s') := hm.exec (.tree ht) hs

/-! ## blocks -/

theorem sim_returned (hv : B.Val v v') : B.Sim (Option.Rel B.Val) (returned? v) (returned? v') := by
  cases hv with
  | tuple hp =>
    refine sim_get fun hw => ?_
    have ht := hw.tuple hp
    revert ht
    generalize World.tuple _ _ = xs
    generalize World.tuple _ _ = ys
    rintro (_ | ⟨hx, hs⟩)
    · exact sim_fault rfl
    · refine sim_ite_iff (hx.eq_str_iff "return") ?_ (sim_pure .none)
      cases hs with
      | nil => exact sim_fault rfl
      | cons hy _ => exact sim_pure (.some hy)
  | _ => exact sim_pure .none

theorem sim_evalOption (hm : B.Machines m m') (hs : B.scopes.Pairs s s') {e e' : Option Node}
    (he : Option.Rel B.Tree e e') : B.Sim B.Val (evalOption m s e) (evalOption m' s' e') := by
  cases he with
  | none => exact sim_pure .null
  | some ht => exact hm.tree ht hs

theorem sim_runBlock (hm : B.Machines m m') (hs : B.scopes.Pairs s s') (hv : B.Val v v')
    (ht : B.Trees ts ts') : B.Sim B.Val (runBlock m s v ts) (runBlock m' s' v' ts') := by
  induction ht generalizing v v' with
  | nil => exact sim_pure hv
  | @cons t t' ts ts' hx _ ih =>
    have hafter {u u' : Value} (hu : B.Val u u') :
        B.Sim B.Val (afterStatement m s ts u) (afterStatement m' s' ts' u') := by
      refine sim_bind (sim_returned hu) fun ho => ?_
      cases ho with
      | none => exact ih hu
      | some hr => exact sim_pure hr
    have hstep := sim_bind (hm.tree hx hs) hafter
    cases hx with
    | quoted hq => exact hstep
    | same hc =>
      cases t with
      | includeFile path => exact sim_bind (hm.tree (.same hc) hs) fun _ => ih hv
      | ret e =>
        rw [runBlock_ret, runBlock_ret]
        have he := (Node.closed_iff rfl).mp hc
        exact sim_evalOption hm hs (option_same fun t ht => he t (List.mem_append_left _ ht))
      | _ => exact hstep

/-! ## functions -/

theorem Parameters.fixedNames (h : B.Parameters ps ps') : fixedNames ps = fixedNames ps' := by
  induction h with
  | nil => rfl
  | cons hp _ ih =>
    cases hp with
    | receiver => exact congrArg (List.cons _) ih
    | plain name _ => exact congrArg (List.cons _) ih
    | rest name => exact ih
    | keywords name => exact ih

theorem Parameters.restName (h : B.Parameters ps ps') (found : Option String) :
    restName found ps = restName found ps' := by
  induction h generalizing found with
  | nil => rfl
  | cons hp _ ih =>
    cases hp with
    | rest name => exact ih (some name)
    | _ => exact ih found

theorem Parameters.keywordsName (h : B.Parameters ps ps') (found : Option String) :
    keywordsName found ps = keywordsName found ps' := by
  induction h generalizing found with
  | nil => rfl
  | cons hp _ ih =>
    cases hp with
    | keywords name => exact ih (some name)
    | _ => exact ih found

theorem bindFixed_rel {c c' : Scope} (hc : B.Vars c c') (names : List String) (h : B.Vals vs vs') :
    B.Excepts B.Vars (bindFixed c names vs) (bindFixed c' names vs') := by
  induction names generalizing c c' vs vs' with
  | nil => exact .ok hc
  | cons name names ih =>
    cases h with
    | nil => exact .error (.plain rfl)
    | cons hv hvs => exact ih (hc.insert name hv) hvs

theorem sim_callScope {c c' : Closure} (hc : B.Function c c') (h : B.Vals vs vs') :
    B.Sim B.Vars (callScope c vs) (callScope c' vs') := by
  unfold callScope
  refine sim_get fun hw => ?_
  dsimp only
  rw [hc.params.fixedNames, hc.params.restName, hc.params.keywordsName,
    all_congr (fun hv => hw.showable hv) h]
  refine sim_check rfl (sim_bind (sim_ofExcept (bindFixed_rel (hw.scope hc.scope) _ h)) fun hb => ?_)
  have hleft := List.forall₂_drop (fixedNames c'.params).length h
  -- the scope so far with the arguments that are left
  let Left (p p' : Scope × List Value) : Prop := B.Vars p.1 p'.1 ∧ B.Vals p.2 p'.2
  split
  case' h_1 => refine sim_bind (R := Left) (sim_pure ⟨hb, hleft⟩) ?_
  case' h_2 =>
    refine sim_bind (sim_newList hleft) fun hl => sim_bind (R := Left) (sim_pure ⟨hb.insert _ hl, .nil⟩) ?_
  all_goals
    rintro ⟨scope, left⟩ ⟨scope', left'⟩ ⟨hsc, hl⟩
    dsimp only at hsc hl
    cases keywordsName none c'.params with
    | none =>
      cases hl with
      | nil => exact sim_pure hsc
      | cons => exact sim_fault rfl
    | some name =>
      rcases hl with _ | ⟨hx, _ | ⟨hy, hys⟩⟩
      · exact sim_bind (sim_newDict .empty) fun hd => sim_pure (hsc.insert name hd)
      · cases hx with
        | dict hp => exact sim_pure (hsc.insert name (.dict hp))
        | _ => exact sim_fault rfl
      · cases hx <;> exact sim_fault rfl

theorem sim_callFunction (hm : B.Machines m m') (hp : B.functions.Pairs i j) (h : B.Vals vs vs') :
    B.Sim B.Val (callFunction m i vs) (callFunction m' j vs') := by
  refine sim_get fun hw => ?_
  have hc := hw.function hp
  refine sim_bind (sim_callScope hc h) fun hv => sim_bind (sim_newScope hv) fun hs => sim_get fun hu => ?_
  refine sim_then (sim_setActive (hu.active.cons (.scope hs))) fun _ => ?_
  refine sim_bind (sim_runBlock hm hs .null hc.body) fun hr => ?_
  exact sim_then (sim_setActive hu.active) fun _ => sim_pure hr

/-! ## classes -/

theorem Classes.insert {t t' : ClassTable} (h : B.Classes t t') (name : String) {c c' : ClassInfo}
    (hc : B.Class c c') : B.Classes (t.insert name c) (t'.insert name c') := Tables.putAt h name hc

theorem Class.addMethod {c c' : ClassInfo} (h : B.Class c c') (name : String) (hp : B.functions.Pairs i j) :
    B.Class (c.addMethod name i) (c'.addMethod name j) := ⟨h.fields, h.parents, h.methods.putAt name hp⟩

theorem Classes.addMethod {t t' : ClassTable} (h : B.Classes t t') (className name : String)
    (hp : B.functions.Pairs i j) :
    B.Classes (t.addMethod className name i) (t'.addMethod className name j) := by
  refine h.insert className (Class.addMethod ?_ name hp)
  exact rel_elim (h.find? className) ⟨rfl, rfl, .nil⟩ fun hc => hc

theorem Classes.update {t t' o o' : ClassTable} (h : B.Classes t t') (ho : B.Classes o o') :
    B.Classes (t.update o) (t'.update o') := by
  unfold ClassTable.update
  replace ho : Tables B.Class o.classes o'.classes := ho
  revert ho
  generalize o.classes = cs
  generalize o'.classes = cs'
  intro ho
  induction ho generalizing t t' with
  | nil => exact h
  | @cons p p' _ _ hp _ ih =>
    obtain ⟨name, c⟩ := p
    obtain ⟨name', c'⟩ := p'
    obtain ⟨hn, hc⟩ := hp
    obtain rfl : name = name' := hn
    exact ih (h.insert name hc)

theorem Function.closed {body : List Node} (h : ∀ t ∈ body ++ paramDefaults ps, t.Closed)
    (hs : B.scopes.Pairs s s') : B.Function ⟨ps, body, s⟩ ⟨ps, body, s'⟩ := by
  rw [List.forall_mem_append] at h
  exact ⟨.same h.2, .same h.1, hs⟩

theorem sim_makeMethods (hs : B.scopes.Pairs s s') {fs : List (Method Node)}
    (hf : ∀ f ∈ fs, ∀ t ∈ f.code, t.Closed) {made made' : List (String × Nat)}
    (h : Tables B.functions.Pairs made made') :
    B.Sim (Tables B.functions.Pairs) (makeMethods s fs made) (makeMethods s' fs made') := by
  induction fs generalizing made made' with
  | nil => exact sim_pure h
  | cons f fs ih =>
    rw [List.forall_mem_cons] at hf
    exact sim_bind (sim_newFunction (.closed hf.1 hs)) fun hp => ih hf.2 (h.putAt f.name hp)

def ClassClosed (c : ClassDecl Node) : Prop :=
  (∀ t ∈ c.defaults, t.Closed) ∧ ∀ f ∈ c.methods, ∀ t ∈ f.code, t.Closed

mutual

theorem sim_registerClass (hs : B.scopes.Pairs s s') (outer : Option String) {t t' : ClassTable}
    (ht : B.Classes t t') : (c : ClassDecl Node) → (∀ d ∈ c.classes, ClassClosed d) →
    B.Sim B.Classes (registerClass s outer t c) (registerClass s' outer t' c)
  | .mk name parents fields methods nested, hc => by
    rw [ClassDecl.classes, List.forall_mem_cons] at hc
    rw [registerClass, registerClass]
    refine sim_bind (sim_makeMethods hs hc.1.2 .nil) fun hmade => ?_
    refine sim_registerClasses hs _ (ht.insert _ ?_) nested hc.2
    exact ⟨rfl, rfl, hmade⟩

theorem sim_registerClasses (hs : B.scopes.Pairs s s') (outer : String) {t t' : ClassTable}
    (ht : B.Classes t t') : (cs : List (ClassDecl Node)) → (∀ d ∈ classesIn cs, ClassClosed d) →
    B.Sim B.Classes (registerClasses s outer t cs) (registerClasses s' outer t' cs)
  | [], _ => by
    rw [registerClasses, registerClasses]
    exact sim_pure ht
  | c :: cs, hc => by
    rw [classesIn, List.forall_mem_append] at hc
    rw [registerClasses, registerClasses]
    refine sim_bind (sim_registerClass hs (some outer) ht c hc.1) fun hu => ?_
    exact sim_registerClasses hs outer hu cs hc.2

end

theorem Target.constructorOf (included : Bool) {c : ClassDecl Node} (h : ∀ d ∈ c.classes, ClassClosed d) :
    B.Target (constructorOf included c) (constructorOf included c) := by
  obtain ⟨name, parents, fields, methods, nested⟩ := c
  rw [ClassDecl.classes, List.forall_mem_cons] at h
  exact .constructor name _ included h.1.1

theorem sim_declareClass {c : ClassDecl Node} (hn : ¬ B.pinned c.name) (h : (Node.classDef c).Closed) :
    B.Sim B.Val (declareClass c) (declareClass c) := by
  have hc : ∀ d ∈ c.classes, ClassClosed d := (closed_classForm c).mp h
  refine sim_get fun hw => sim_bind (sim_registerClass hw.pairs_globals none hw.classes c hc) fun ht => ?_
  refine sim_then (sim_modify fun hu => hu.setClasses ht) fun _ => ?_
  refine sim_bind (sim_newCallable (.constructorOf false hc)) fun hv => ?_
  exact sim_then (sim_bindName hw.pairs_globals hn hv) fun _ => sim_pure .null

theorem sim_declareFunction (hn : ¬ B.pinned name) (hp : B.Parameters ps ps') (ht : B.Trees ts ts')
    (hs : B.scopes.Pairs s s') :
    B.Sim B.Val (declareFunction ⟨name, ps, ts⟩ s) (declareFunction ⟨name, ps', ts'⟩ s') := by
  refine sim_bind (sim_newFunction ⟨hp, ht, hs⟩) fun hc => ?_
  dsimp only
  split
  · refine sim_then (sim_modify fun hw => ?_) fun _ => sim_pure .null
    exact hw.setClasses (hw.classes.addMethod _ _ hc)
  · exact sim_then (sim_bindName hs hn (.function hc)) fun _ => sim_pure .null

/-! ## instances -/

theorem classNamed_rel (h : B.Match w w') (hv : B.Val v v') :
    Option.Rel (fun p p' => p.1 = p'.1 ∧ B.Class p.2 p'.2) (classNamed? w v) (classNamed? w' v') := by
  cases hv with
  | str name =>
    unfold classNamed?
    dsimp only
    refine rel_elim (h.classes.find? name) .none fun hc => ?_
    exact .some ⟨rfl, hc⟩
  | _ => exact .none

theorem sim_fieldDefault (hm : B.Machines m m') (qualified : List (String × String)) (hs : B.scopes.Pairs s s')
    (hc : t.Closed) : B.Sim B.Val (fieldDefault m qualified s t) (fieldDefault m' qualified s' t) := by
  fun_induction fieldDefault m qualified s t with
  | case1 name full hq =>
    rw [fieldDefault, hq]
    exact sim_pure (.str full)
  | case2 name hq =>
    rw [fieldDefault, hq]
    exact hm.tree (.same hc) hs
  | case3 left attr ih =>
    have hl : left.Closed := (Node.closed_iff rfl).mp hc left (List.mem_append_left _ (List.mem_singleton_self _))
    rw [fieldDefault]
    refine sim_bind (ih hl) fun hv => sim_get fun hw => ?_
    refine rel_elim (classNamed_rel hw hv) ?_ fun {p p'} hp => ?_
    · exact hm.exec (.shape (.getAttr attr (.quoted hv))) hs
    · obtain ⟨name, c⟩ := p
      obtain ⟨name', c'⟩ := p'
      obtain ⟨hn, hk⟩ := hp
      obtain rfl : name = name' := hn
      dsimp only at hk ⊢
      exact rel_elim (hk.methods.lookup attr) (sim_fault rfl) fun hf => sim_pure (.function hf)
  | case4 t hv hg =>
    have hr : fieldDefault m' qualified s' t = m'.exec t s' := by
      cases t with
      | var name => exact absurd rfl (hv name)
      | getAttr left attr => exact absurd rfl (hg left attr)
      | _ => rfl
    rw [hr]
    exact hm.tree (.same hc) hs

theorem sim_fillFields (hm : B.Machines m m') (qualified : List (String × String)) {d d' : Dict}
    (hd : B.Dicts d d') {fields : List (String × Option Node)} (hf : ∀ t ∈ fieldDefaults fields, t.Closed)
    (h : B.Vals vs vs') :
    B.Sim B.Dicts (fillFields m qualified d fields vs) (fillFields m' qualified d' fields vs') := by
  induction fields generalizing d d' vs vs' with
  | nil => cases h <;> exact sim_pure hd
  | cons f fields ih =>
    obtain ⟨name, e⟩ := f
    rw [fieldDefaults_cons, List.forall_mem_append] at hf
    cases h with
    | cons hv hvs => exact ih (hd.insert (.str name) hv) hf.2 hvs
    | nil =>
      cases e with
      | none => exact ih (hd.insert (.str name) .null) hf.2 .nil
      | some e =>
        have he : e.Closed := hf.1 e (List.mem_singleton_self e)
        refine sim_get fun hw => sim_bind (sim_fieldDefault hm qualified hw.pairs_globals he) fun hv => ?_
        exact ih (hd.insert (.str name) hv) hf.2 .nil

theorem sim_construct (hm : B.Machines m m') (name : String) (qualified : List (String × String))
    {fields : List (String × Option Node)} (hf : ∀ t ∈ fieldDefaults fields, t.Closed) (h : B.Vals vs vs') :
    B.Sim B.Val (construct m name fields qualified vs) (construct m' name fields qualified vs') := by
  refine sim_bind (sim_fillFields hm qualified ?_ hf h) fun hd => sim_newDict hd
  exact .cons ⟨.str _, .str _⟩ .nil

/-! ## files of program text -/

theorem sim_parseProgram (source : String) :
    B.Sim (fun ts ts' => ts = ts' ∧ ∀ t ∈ ts, t.Closed) (parseProgram source) (parseProgram source) := by
  unfold parseProgram
  cases hp : parseSource source with
  | ok body => exact sim_pure ⟨rfl, parseSource_closed hp⟩
  | error e => exact sim_fault rfl

theorem sim_readSource (path : String) {missing : Fault} (h : missing.isPlain = true) :
    B.Sim Eq (readSource path missing) (readSource path missing) := by
  refine sim_get fun {_ w'} hw => ?_
  rw [hw.disk]
  have hk := known_toRead w'.disk path
  revert hk
  cases w'.disk.toRead path with
  | ok key => exact fun _ => sim_readWhole path
  | error f =>
    intro hk
    split
    · exact sim_fault h
    · rename_i hf
      cases hf
      exact sim_fail (.known (hk f rfl))
    · rename_i hf
      cases hf

theorem sim_programDirectory : B.Sim Eq programDirectory programDirectory := by
  refine sim_get fun hw => ?_
  dsimp only
  refine rel_elim (Vals.item (hw.list hw.pairs_arguments) 1) (sim_fault rfl) fun hv => ?_
  cases hv with
  | str path => exact sim_pure rfl
  | _ => exact sim_fault rfl

theorem sim_includeInPlace (hm : B.Machines m m') (name : String) (hs : B.scopes.Pairs s s') :
    B.Sim B.Val (includeInPlace m name s) (includeInPlace m' name s') := by
  refine sim_then sim_programDirectory fun dir => sim_get fun hw => ?_
  dsimp only
  rw [hw.disk]
  refine sim_then (sim_readSource _ rfl) fun source => sim_bind (sim_parseProgram source) ?_
  rintro ts _ ⟨rfl, ht⟩
  exact sim_bind (sim_runBlock hm hs .null (.same ht)) fun _ => sim_pure .null

theorem sim_modulePath (name : String) : B.Sim Eq (modulePath name) (modulePath name) := by
  unfold modulePath
  dsimp only
  split
  · refine sim_get fun hw => ?_
    rw [hw.disk]
    split
    · exact sim_pure rfl
    · exact sim_fault rfl
  · exact sim_pure rfl

/-- classes and entries that stand for each other -/
def Contents (B : Bond) (p p' : ClassTable × Dict) : Prop := B.Classes p.1 p'.1 ∧ B.Dicts p.2 p'.2

theorem sim_moduleClasses (hs : B.scopes.Pairs s s') {c c' : ClassTable} {d d' : Dict} (hc : B.Classes c c')
    (hd : B.Dicts d d') (ht : ∀ t ∈ ts, t.Closed) :
    B.Sim B.Contents (moduleClasses s c d ts) (moduleClasses s' c' d' ts) := by
  induction ts generalizing c c' d d' with
  | nil => exact sim_pure ⟨hc, hd⟩
  | cons t ts ih =>
    rw [List.forall_mem_cons] at ht
    cases t with
    | classDef k =>
      have hk : ∀ d ∈ k.classes, ClassClosed d := (closed_classForm k).mp ht.1
      refine sim_bind (sim_registerClass hs none hc k hk) fun hu => ?_
      refine sim_bind (sim_newCallable (.constructorOf true hk)) fun hv => ?_
      exact ih hu (hd.insert (.str _) hv) ht.2
    | _ => exact ih hc hd ht.2

theorem sim_moduleFunctions (hs : B.scopes.Pairs s s') {c c' : ClassTable} {d d' : Dict} (hc : B.Classes c c')
    (hd : B.Dicts d d') (ht : ∀ t ∈ ts, t.Closed) :
    B.Sim B.Contents (moduleFunctions s c d ts) (moduleFunctions s' c' d' ts) := by
  induction ts generalizing c c' d d' with
  | nil => exact sim_pure ⟨hc, hd⟩
  | cons t ts ih =>
    rw [List.forall_mem_cons] at ht
    cases t with
    | define f =>
      refine sim_bind (sim_newFunction (.closed (closed_methodForm.mp ht.1) hs)) fun hp => ?_
      dsimp only
      split
      · rename_i className name _
        refine ih ?_ hd ht.2
        have hf : (c.find? className).isSome = (c'.find? className).isSome :=
          rel_elim (hc.find? className) rfl fun _ => rfl
        rw [hf]
        split
        · exact hc.addMethod className name hp
        · exact hc
      · exact ih hc (hd.insert (.str _) (.function hp)) ht.2
    | _ => exact ih hc hd ht.2

theorem sim_includeModule (h : B.Vals vs vs') : B.Sim B.Val (includeModule vs) (includeModule vs') := by
  cases h with
  | nil => exact sim_fault rfl
  | cons hv _ =>
    cases hv with
    | str name =>
      refine sim_then (sim_modulePath name) fun path => sim_then (sim_readSource path rfl) fun source => ?_
      refine sim_bind (sim_parseProgram source) ?_
      rintro ts _ ⟨rfl, ht⟩
      refine sim_get fun hw => sim_bind (sim_moduleClasses hw.pairs_globals .nil .empty ht) fun hp => ?_
      refine sim_bind (sim_moduleFunctions hw.pairs_globals hp.1 hp.2 ht) fun hq => ?_
      refine sim_then (sim_modify fun hu => ?_) fun _ => sim_newDict hq.2
      exact hu.setClasses (hu.classes.update hq.1)
    | _ => exact sim_fault rfl

/-! ## operators -/

section
variable (hm : B.Machines m m') (hs : B.scopes.Pairs s s')
include hm hs

theorem sim_operands {a a' b b' : Node} (ha : B.Tree a a') (hb : B.Tree b b') :
    B.Sim B.Entry (operands m s a b) (operands m' s' a' b') :=
  sim_bind (hm.tree ha hs) fun hx => sim_bind (hm.tree hb hs) fun hy => sim_pure ⟨hx, hy⟩

omit hm hs in
theorem order?_eq (hv : B.Val v v') (hu : B.Val u u') : v.order? u = v'.order? u' := by
  cases hv <;> cases hu <;> rfl

omit hm hs in
theorem sim_compareValues (op : CompareOp) (hv : B.Val v v') (hu : B.Val u u') :
    B.Sim B.Val (compareValues op v u) (compareValues op v' u') := by
  refine sim_get fun hw => ?_
  rw [hw.equal hv hu, order?_eq hv hu, hw.className hv, hw.className hu]
  split
  · exact sim_pure (.bool _)
  · exact sim_pure (.bool _)
  · split
    · exact sim_fault rfl
    · split
      · exact sim_pure (.bool _)
      · exact sim_fail (.missingKey (.str _))

omit hm hs in
theorem sim_applyUpdate (op : AugOp) {x x' y y' : Exec Value} (hx : B.Sim B.Val x x') (hy : B.Sim B.Val y y') :
    B.Sim B.Val (applyUpdate op x y) (applyUpdate op x' y') := by
  cases op with
  | arith op => exact sim_bind hx fun ha => sim_bind hy fun hb => sim_arith op ha hb
  | other sign => exact sim_fail (.missingKey (.str sign))

/-! ## branches and handlers -/

theorem sim_evalBranches {bs bs' : List (Option Node × List Node)} (h : List.Forall₂ B.Branch bs bs') :
    B.Sim B.Val (evalBranches m s bs) (evalBranches m' s' bs') := by
  induction h with
  | nil => exact sim_pure .null
  | @cons b b' bs bs' hb _ ih =>
    obtain ⟨c, body⟩ := b
    obtain ⟨c', body'⟩ := b'
    obtain ⟨hc, hbody⟩ := hb
    have hrun := sim_runBlock hm hs .null hbody
    dsimp only at hc
    cases hc with
    | none => exact hrun
    | some ht =>
      exact sim_bind (hm.tree ht hs) fun hv => sim_then (sim_truth hv) fun _ => sim_ite hrun ih

theorem sim_matchesAny (hv : B.Val v v') (h : B.Trees ts ts') :
    B.Sim Eq (matchesAny m s v ts) (matchesAny m' s' v' ts') := by
  induction h with
  | nil => exact sim_pure rfl
  | cons ht _ ih =>
    refine sim_bind (hm.tree ht hs) fun hu => sim_get fun hw => ?_
    rw [hw.equal hv hu]
    exact sim_ite (sim_pure rfl) ih

theorem sim_evalCases (hv : B.Val v v') {cs cs' : List (List Node × List Node)}
    (h : List.Forall₂ B.Case cs cs') : B.Sim B.Val (evalCases m s v cs) (evalCases m' s' v' cs') := by
  induction h with
  | nil => exact sim_pure .null
  | @cons c c' cs cs' hc _ ih =>
    obtain ⟨ps, body⟩ := c
    obtain ⟨ps', body'⟩ := c'
    obtain ⟨hp, hbody⟩ := hc
    have hrun := sim_runBlock hm hs .null hbody
    have hany := sim_matchesAny hm hs hv hp
    dsimp only at hp hany
    cases hp with
    | nil => exact hrun
    | cons => exact sim_then hany fun _ => sim_ite hrun ih

theorem sim_evalTry {name : Option String} (hn : ∀ x ∈ name, ¬ B.pinned x) (ht : B.Trees ts ts')
    {us us' : List Node} (hu : B.Trees us us') :
    B.Sim B.Val (evalTry m s name ts us) (evalTry m' s' name ts' us') := by
  refine sim_get fun hw => sim_tryCatch (sim_runBlock hm hs .null ht) (fun {e e'} he => ?_) rfl
  have htext : B.Sim Eq (query (·.signalText e)) (query (·.signalText e')) :=
    sim_query fun {_ w'} hw => .known (w'.known_signalText e') (hw.signalText he)
  have hhandle := sim_then htext fun text => sim_then (sim_bindMessage hs hn (.str text)) fun _ =>
    sim_bind (sim_runBlock hm hs .null hu) fun hv => sim_then (sim_setActive hw.active) fun _ => sim_pure hv
  cases he with
  | exhausted => exact sim_throw .exhausted
  | _ => exact hhandle

/-! ## loops and comprehensions -/

omit hm hs in
theorem sim_loopTurn {x x' : Exec Value} (hx : B.Sim B.Val x x') : B.Sim Eq (loopTurn x) (loopTurn x') := by
  refine sim_get fun hw => sim_tryCatch (sim_bind hx fun _ => sim_pure rfl) (fun he => ?_) rfl
  cases he with
  | continueLoop => exact sim_then (sim_setActive hw.active) fun _ => sim_pure rfl
  | breakLoop => exact sim_then (sim_setActive hw.active) fun _ => sim_pure rfl
  | exhausted => exact sim_throw .exhausted
  | fault hf => exact sim_throw (.fault hf)

theorem sim_forPlaces (hn : ¬ B.pinned name) (hv : B.Val v v') (ht : B.Trees ts ts') (places : List Int) :
    B.Sim B.Val (forPlaces m s name v ts places) (forPlaces m' s' name v' ts' places) := by
  induction places with
  | nil => exact sim_pure .null
  | cons n places ih =>
    refine sim_bind (sim_element hv (.int n)) fun hx => sim_then (sim_bindName hs hn hx) fun _ => ?_
    exact sim_then (sim_loopTurn (sim_runBlock hm hs .null ht)) fun _ => sim_ite ih (sim_pure .null)

omit hm hs in
theorem sim_stepPlaces (size : Nat) (hv : B.Val v v') : B.Sim Eq (stepPlaces size v) (stepPlaces size v') :=
  sim_then (sim_integerArgument hv) fun _ => sim_check rfl (sim_pure rfl)

theorem sim_evalFor (hn : ¬ B.pinned name) (hi : B.Tree t t') {e e' : Option Node} (he : Option.Rel B.Tree e e')
    (ht : B.Trees ts ts') : B.Sim B.Val (evalFor m s name t e ts) (evalFor m' s' name t' e' ts') := by
  refine sim_bind (hm.tree hi hs) fun hv => ?_
  cases he
  case' none => refine sim_bind (R := B.Val) (sim_pure (.int 1)) fun hx => ?_
  case' some he => refine sim_bind (hm.tree he hs) fun hx => ?_
  all_goals
    cases hv with
    | list hp =>
      refine sim_get fun hw => ?_
      rw [Vals.size (hw.list hp)]
      exact sim_then (sim_stepPlaces _ hx) fun _ => sim_forPlaces hm hs hn (.list hp) ht _
    | _ => exact sim_fault rfl

theorem sim_whileTurns (hc : B.Tree t t') (ht : B.Trees ts ts') (fuel : Nat) :
    B.Sim B.Val (whileTurns m s t ts fuel) (whileTurns m' s' t' ts' fuel) := by
  induction fuel with
  | zero => exact sim_throw .exhausted
  | succ fuel ih =>
    refine sim_bind (hm.tree hc hs) fun hv => sim_then (sim_truth hv) fun _ => sim_ite ?_ (sim_pure .null)
    exact sim_then (sim_loopTurn (sim_runBlock hm hs .null ht)) fun _ => sim_ite ih (sim_pure .null)

theorem sim_passes (h : B.Trees ts ts') : B.Sim Eq (passes m s ts) (passes m' s' ts') := by
  rcases h with _ | ⟨hx, _ | ⟨hy, hys⟩⟩
  · exact sim_pure rfl
  · exact sim_bind (hm.tree hx hs) fun hv => sim_truth hv
  · refine sim_get fun hw => ?_
    have hall := List.Forall₂.cons hx (List.Forall₂.cons hy hys)
    rw [map_congr_rel (fun ht => hw.nodeText ht) hall]
    exact sim_fault rfl

theorem sim_collectValue (ht : B.Tree t t') (hl : B.lists.Pairs i j) :
    B.Sim Eq (collectValue m s t i) (collectValue m' s' t' j) := sim_bind (hm.tree ht hs) fun hu => sim_push hl hu

theorem sim_collectPlaces (ht : B.Tree t t') (hn : ¬ B.pinned name) (hv : B.Val v v') (hc : B.Trees ts ts')
    (hl : B.lists.Pairs i j) (places : List Int) :
    B.Sim Eq (collectPlaces m s t name v ts i places) (collectPlaces m' s' t' name v' ts' j places) := by
  induction places with
  | nil => exact sim_pure rfl
  | cons n places ih =>
    refine sim_bind (sim_element hv (.int n)) fun hx => sim_then (sim_bindName hs hn hx) fun _ => ?_
    refine sim_then (sim_passes hm hs hc) fun _ => sim_ite ?_ ih
    exact sim_then (sim_collectValue hm hs ht hl) fun _ => ih

theorem sim_comprehensionPlaces {e e' : Node} (ht : B.Tree t t') (he : B.Tree e e') :
    B.Sim (fun p p' => B.Val p.1 p'.1 ∧ p.2 = p'.2) (comprehensionPlaces m s t e)
      (comprehensionPlaces m' s' t' e') := by
  refine sim_bind (hm.tree ht hs) fun hv => sim_bind (hm.tree he hs) fun hx => ?_
  refine sim_then (sim_length hv) fun n => sim_then (sim_stepPlaces n hx) fun places => ?_
  exact sim_pure ⟨hv, rfl⟩

theorem sim_evalListComp (ht : B.Tree t t') (hn : ¬ B.pinned name) {i i' e e' : Node} (hi : B.Tree i i')
    (he : B.Tree e e') (hc : B.Trees ts ts') :
    B.Sim B.Val (evalListComp m s t name i e ts) (evalListComp m' s' t' name i' e' ts') := by
  refine sim_get fun hw => ?_
  have hl := hw.lists.pairs_size
  refine sim_bind (sim_newList .nil) fun hr => sim_get fun hu => ?_
  refine sim_then (sim_setActive (hu.active.cons (.list hl))) fun _ => ?_
  refine sim_bind (sim_comprehensionPlaces hm hs hi he) ?_
  rintro ⟨v, places⟩ ⟨v', _⟩ ⟨hv, rfl⟩
  refine sim_then (sim_collectPlaces hm hs ht hn hv hc hl places) fun _ => ?_
  exact sim_then (sim_setActive hu.active) fun _ => sim_pure hr

theorem sim_evalDictComp {k k' e e' i i' : Node} {c c' : Option Node} (hk : B.Tree k k') (he : B.Tree e e')
    (hn : ¬ B.pinned name) (hi : B.Tree i i') (hc : Option.Rel B.Tree c c') :
    B.Sim B.Val (evalDictComp m s k e name i c) (evalDictComp m' s' k' e' name i' c') := by
  have hcs : B.Trees c.toList c'.toList := by
    cases hc with
    | none => exact .nil
    | some h => exact .cons h .nil
  refine sim_bind (hm.tree hi hs) fun hv => ?_
  rw [hm.fuel]
  refine sim_bind (sim_foldItems (fun hd hx => ?_) _ hv .empty) fun hd => sim_newDict hd
  refine sim_then (sim_bindName hs hn hx) fun _ => sim_then (sim_passes hm hs hcs) fun _ => ?_
  refine sim_ite (sim_bind (sim_operands hm hs hk he) fun hp => ?_) (sim_pure hd)
  exact sim_then (sim_checkKey hp.1) fun _ => sim_pure (hd.insert hp.1 hp.2)

theorem sim_evalEntries {d d' : Dict} (hd : B.Dicts d d') {ps ps' : List (Node × Node)}
    (h : List.Forall₂ B.TreePair ps ps') :
    B.Sim B.Dicts (evalEntries m s d ps) (evalEntries m' s' d' ps') := by
  induction h generalizing d d' with
  | nil => exact sim_pure hd
  | @cons p p' ps ps' hp _ ih =>
    obtain ⟨k, e⟩ := p
    obtain ⟨k', e'⟩ := p'
    refine sim_bind (sim_operands hm hs hp.1 hp.2) fun hq => ?_
    exact sim_then (sim_checkKey hq.1) fun _ => ih (hd.insert hq.1 hq.2)

theorem sim_evalItems {a a' : Array Value} (ha : B.Vals a.toList a'.toList) (h : B.Trees ts ts') :
    B.Sim (fun a a' => B.Vals a.toList a'.toList) (evalItems m s a ts) (evalItems m' s' a' ts') := by
  induction h generalizing a a' with
  | nil => exact sim_pure ha
  | cons ht _ ih =>
    refine sim_bind (hm.tree ht hs) fun hv => ih ?_
    rw [Array.toList_push, Array.toList_push]
    exact List.rel_append ha (.cons hv .nil)

/-! ## assignments and items -/

theorem sim_evalAssign (hn : ¬ B.pinned name) (ht : B.Tree t t') :
    B.Sim B.Val (evalAssign m s name t) (evalAssign m' s' name t') := by
  have hplain := sim_bind (hm.tree ht hs) fun hv => sim_then (sim_bindName hs hn hv) fun _ => sim_pure hv
  cases ht with
  | quoted hv => exact hplain
  | same hc =>
    cases t with
    | keywordUnpack e =>
      have he : e.Closed := (Node.closed_iff rfl).mp hc e (List.mem_append_left _ (List.mem_singleton_self _))
      refine sim_bind (hm.tree (.same he) hs) fun hv => ?_
      cases hv with
      | dict hp =>
        refine sim_bind (sim_newTuple (.cons (.str _) (.cons (.dict hp) .nil))) fun hu => ?_
        exact sim_then (sim_bindName hs hn hu) fun _ => sim_pure hu
      | _ => exact sim_fault rfl
    | _ => exact hplain

theorem sim_evalAugAttr (ho : B.Tree o o') (attr : String) (op : AugOp) (ht : B.Tree t t') :
    B.Sim B.Val (evalAugAttr m s o attr op t) (evalAugAttr m' s' o' attr op t') := by
  refine sim_bind (hm.tree ho hs) fun hv => ?_
  have hother := sim_then (sim_plain hv) fun text =>
    sim_fault (B := B) (R := B.Val) (f := .attributeAssign attr text) rfl
  cases hv with
  | dict hp =>
    refine sim_get fun hw => ?_
    have hold := getD_null ((hw.dict hp).get? attr)
    refine sim_bind (sim_applyUpdate op (sim_pure hold) (hm.tree ht hs)) fun hx => ?_
    exact sim_then (sim_putKey hp (.str attr) hx) fun _ => sim_pure hx
  | _ => exact hother

theorem sim_evalAugIndex {i i' : Node} (ho : B.Tree o o') (hi : B.Tree i i') (op : AugOp)
    (ht : B.Tree t t') : B.Sim B.Val (evalAugIndex m s o i op t) (evalAugIndex m' s' o' i' op t') := by
  refine sim_bind (sim_operands hm hs ho hi) fun hp => ?_
  refine sim_bind (sim_applyUpdate op (sim_element hp.1 hp.2) (hm.tree ht hs)) fun hx => ?_
  exact sim_then (sim_putElement hp.1 hp.2 hx) fun _ => sim_pure .null

theorem sim_evalSetIndex {i i' : Node} (ho : B.Tree o o') (hi : B.Tree i i') (ht : B.Tree t t') :
    B.Sim B.Val (evalSetIndex m s o i t) (evalSetIndex m' s' o' i' t') := by
  refine sim_bind (sim_operands hm hs ho hi) ?_
  rintro ⟨c, x⟩ ⟨c', x'⟩ ⟨hc, hx⟩
  dsimp only at hc hx
  refine sim_bind (hm.tree ht hs) fun hv => ?_
  have hput := sim_then (sim_putElement hc hx hv) fun _ => sim_pure hv
  have hother := sim_then (sim_plain hc) fun text =>
    sim_fault (B := B) (R := B.Val) (f := .indexAssign text) rfl
  cases hc with
  | list hp => exact hput
  | dict hp => exact hput
  | _ => exact hother

theorem sim_evalGetItem {i i' : Node} (ho : B.Tree o o') (hi : B.Tree i i') :
    B.Sim B.Val (evalGetItem m s o i) (evalGetItem m' s' o' i') := by
  refine sim_bind (sim_operands hm hs ho hi) fun hp => ?_
  refine sim_tryCatch (sim_element hp.1 hp.2) (fun he => ?_) rfl
  cases he with
  | fault hf =>
    dsimp only
    rw [hf.family]
    have hindex := sim_then (sim_plain hp.1) fun object => sim_then (sim_plain hp.2) fun index =>
      sim_fault (B := B) (R := B.Val) (f := .cannotIndex object index) rfl
    split
    · exact hindex
    · exact hindex
    · exact hindex
    · exact sim_fail hf
  | breakLoop => exact sim_throw .breakLoop
  | continueLoop => exact sim_throw .continueLoop
  | exhausted => exact sim_throw .exhausted

theorem sim_evalIndex {i i' : Node} (ho : B.Tree o o') (hi : B.Tree i i') :
    B.Sim B.Val (evalIndex m s o i) (evalIndex m' s' o' i') := by
  refine sim_bind (sim_operands hm hs ho hi) ?_
  rintro ⟨c, x⟩ ⟨c', x'⟩ ⟨hc, hx⟩
  dsimp only at hc hx
  have hitem := sim_element hc hx
  cases hc with
  | list hp => exact hitem
  | str s => exact hitem
  | dict hp => exact hitem
  | _ => exact sim_fault rfl

theorem sim_evalSlice (ho : B.Tree o o') {a a' b b' c c' : Option Node} (ha : Option.Rel B.Tree a a')
    (hb : Option.Rel B.Tree b b') (hc : Option.Rel B.Tree c c') :
    B.Sim B.Val (evalSlice m s o a b c) (evalSlice m' s' o' a' b' c') := by
  refine sim_bind (hm.tree ho hs) fun hv => ?_
  have hslice := sim_bind (sim_evalOption hm hs ha) fun hx => sim_bind (sim_evalOption hm hs hb) fun hy =>
    sim_bind (sim_evalOption hm hs hc) fun hz => sim_slice hv hx hy hz
  cases hv with
  | list hp => exact hslice
  | str s => exact hslice
  | _ => exact sim_raise rfl

end

/-! ## calls -/

theorem sim_twoArguments (h : B.Vals vs vs') : B.Sim B.Entry (twoArguments vs) (twoArguments vs') := by
  have hl := h.length_eq
  unfold twoArguments
  rcases h with _ | ⟨ha, _ | ⟨hb, _ | ⟨hc, hcs⟩⟩⟩
  case cons.cons.nil => exact sim_pure ⟨ha, hb⟩
  all_goals
    dsimp only
    rw [hl]
    exact sim_ite (sim_fault rfl) (sim_fault rfl)

section
variable (hm : B.Machines m m')
include hm

theorem sim_mapItems (h : B.Vals vs vs') : B.Sim B.Val (mapItems m vs) (mapItems m' vs') := by
  refine sim_bind (sim_twoArguments h) fun hp => ?_
  rw [hm.fuel]
  refine sim_bind (R := fun a a' => B.Vals a.toList a'.toList)
    (sim_foldItems (fun ha hx => ?_) _ hp.2 .nil) fun ha => sim_newList ha
  refine sim_bind (hm.call hp.1 (.cons hx .nil)) fun hv => sim_pure ?_
  rw [Array.toList_push, Array.toList_push]
  exact List.rel_append ha (.cons hv .nil)

theorem sim_filterItems (h : B.Vals vs vs') : B.Sim B.Val (filterItems m vs) (filterItems m' vs') := by
  refine sim_bind (sim_twoArguments h) fun hp => ?_
  rw [hm.fuel]
  refine sim_bind (R := fun a a' => B.Vals a.toList a'.toList)
    (sim_foldItems (fun ha hx => ?_) _ hp.2 .nil) fun ha => sim_newList ha
  refine sim_bind (hm.call hp.1 (.cons hx .nil)) fun hv => sim_then (sim_truth hv) fun _ => ?_
  refine sim_ite (sim_pure ?_) (sim_pure ha)
  rw [Array.toList_push, Array.toList_push]
  exact List.rel_append ha (.cons hx .nil)

theorem sim_reduceStep {o o' : Option Value} (hf : B.Val v v') (ho : Option.Rel B.Val o o') (hx : B.Val u u') :
    B.Sim (Option.Rel B.Val) (reduceStep m v o u) (reduceStep m' v' o' u') := by
  cases ho with
  | none => exact sim_pure (.some hx)
  | some ha => exact sim_bind (hm.call hf (.cons ha (.cons hx .nil))) fun hr => sim_pure (.some hr)

theorem sim_reduceItems (h : B.Vals vs vs') : B.Sim B.Val (reduceItems m vs) (reduceItems m' vs') := by
  let Start (p p' : Value × Value × Option Value) : Prop :=
    B.Val p.1 p'.1 ∧ B.Val p.2.1 p'.2.1 ∧ Option.Rel B.Val p.2.2 p'.2.2
  unfold reduceItems
  rw [hm.fuel]
  rcases h with _ | ⟨ha, _ | ⟨hb, _ | ⟨hc, _ | ⟨hd, hds⟩⟩⟩⟩
  case' cons.cons.nil => refine sim_bind (R := Start) (sim_pure ⟨ha, hb, .none⟩) ?_
  case' cons.cons.cons.nil => refine sim_bind (R := Start) (sim_pure ⟨ha, hb, .some hc⟩) ?_
  any_goals exact sim_raise rfl
  all_goals
    rintro ⟨f, c, o⟩ ⟨f', c', o'⟩ ⟨hf, hx, ho⟩
    refine sim_bind (sim_foldItemsOr (fun ha hy => sim_reduceStep hm hf ha hy) rfl _ hx ho) fun hr => ?_
    cases hr with
    | none => exact sim_fault rfl
    | some hr => exact sim_pure hr

theorem sim_callBuiltin (b : Builtin) (h : B.Vals vs vs') :
    B.Sim B.Val (callBuiltin m b vs) (callBuiltin m' b vs') := by
  have harg := sim_argument h
  cases b with
  | print => exact sim_printValues h
  | printf => exact sim_printFormatted h
  | range => exact sim_toRange h
  | input => exact sim_readInput h
  | type =>
    refine sim_bind (harg 0) fun hv => ?_
    rw [hv.typeName]
    exact sim_pure (.str _)
  | int => exact sim_bind (harg 0) fun hv => sim_toInt hv
  | float => exact sim_bind (harg 0) fun hv => sim_toFloat hv
  | str => exact sim_bind (harg 0) fun hv => sim_then (sim_plain hv) fun _ => sim_pure (.str _)
  | list => exact sim_bind (harg 0) fun hv => sim_bind (sim_items hv) fun hs => sim_newList hs
  | dict => exact sim_bind (harg 0) fun hv => sim_toDict hv
  | length => exact sim_bind (harg 0) fun hv => sim_then (sim_length hv) fun _ => sim_pure (.int _)
  | openFile => exact sim_toFile h
  | map => exact sim_mapItems hm h
  | filter => exact sim_filterItems hm h
  | reduce => exact sim_reduceItems hm h
  | chr => exact sim_bind (harg 0) fun hv => sim_toCharacter hv
  | all =>
    refine sim_get fun hw => ?_
    rw [all_congr (fun hv => hw.truth hv) h]
    exact sim_pure (.bool _)
  | any =>
    refine sim_get fun hw => ?_
    rw [any_congr (fun hv => hw.truth hv) h]
    exact sim_pure (.bool _)
  | pow => exact sim_bind (harg 0) fun ha => sim_bind (harg 1) fun hb => sim_power ha hb
  | ord => exact sim_bind (harg 0) fun hv => sim_toOrdinal hv
  | load => exact sim_includeModule h
  | host => exact sim_fault rfl

theorem sim_callValue (hv : B.Val v v') (h : B.Vals vs vs') :
    B.Sim B.Val (callValue m v vs) (callValue m' v' vs') := by
  cases hv with
  | function hp => exact sim_callFunction hm hp h
  | builtin b => exact sim_callBuiltin hm b h
  | callable hp =>
    refine sim_get fun hw => ?_
    have hc := hw.callable hp
    revert hc
    generalize World.callable _ _ = c
    generalize World.callable _ _ = c'
    intro hc
    cases hc with
    | constructor name qualified included hf => exact sim_construct hm name qualified hf h
    | method hf hv => exact sim_callFunction hm hf (.cons hv h)
    | textMethod k s => exact sim_callTextMethod k s h
    | listMethod k hl => exact sim_callListMethod k hl h
    | fileMethod k hf => exact sim_callFileMethod k hf h
  | _ => exact sim_fault rfl

end

/-! ## arguments -/

variable (B) in
/-- arguments that stand for each other -/
structure Args (a a' : Arguments) : Prop where
  positional : B.Vals a.positional a'.positional
  keywords : B.Dicts a.keywords a'.keywords

theorem sim_unmarked (hv : B.Val v v') : B.Sim B.Val (unmarked v) (unmarked v') := by
  cases hv with
  | tuple hp =>
    refine sim_get fun hw => ?_
    have ht := hw.tuple hp
    revert ht
    generalize World.tuple _ _ = xs
    generalize World.tuple _ _ = ys
    rintro (_ | ⟨hx, hxs⟩)
    · exact sim_fault rfl
    · refine sim_ite_iff (hx.eq_str_iff "kwunpack") ?_ (sim_pure (.tuple hp))
      cases hxs with
      | nil => exact sim_fault rfl
      | cons hy _ => exact sim_pure hy
  | _ => exact sim_pure (by constructor <;> assumption)

section
variable {a a' : Arguments}

theorem Args.push (h : B.Args a a') (hv : B.Val v v') :
    B.Args { a with positional := a.positional ++ [v] } { a' with positional := a'.positional ++ [v'] } :=
  ⟨List.rel_append h.positional (.cons hv .nil), h.keywords⟩

theorem sim_addUnpacked (h : B.Args a a') (hv : B.Val v v') :
    B.Sim B.Args (addUnpacked a v) (addUnpacked a' v') := by
  refine sim_get fun hw => ?_
  cases hv with
  | list hp => exact sim_pure ⟨List.rel_append h.positional (hw.list hp), h.keywords⟩
  | tuple hp => exact sim_pure ⟨List.rel_append h.positional (hw.tuple hp), h.keywords⟩
  | _ => exact sim_fault rfl

theorem sim_addKeywords (h : B.Args a a') {f : Fault} (hf : f.isPlain = true) (hv : B.Val v v') :
    B.Sim B.Args (addKeywords a f v) (addKeywords a' f v') := by
  cases hv with
  | dict hp => exact sim_get fun hw => sim_pure ⟨h.positional, h.keywords.update (hw.dict hp)⟩
  | _ => exact sim_fault hf

theorem sim_isMarked (hv : B.Val v v') : B.Sim Eq (isMarked v) (isMarked v') := by
  cases hv with
  | tuple hp =>
    refine sim_get fun hw => sim_pure ?_
    have ht := hw.tuple hp
    revert ht
    generalize World.tuple _ _ = xs
    generalize World.tuple _ _ = ys
    rintro (_ | ⟨hx, -⟩)
    · rfl
    · simp only [List.head?_cons, Option.some.injEq, hx.eq_str_iff]
  | _ => exact sim_pure rfl

section
variable (hm : B.Machines m m') (hs : B.scopes.Pairs s s')
include hm hs

theorem sim_evalArguments (h : B.Args a a') (ht : B.Trees ts ts') :
    B.Sim B.Args (evalArguments m s a ts) (evalArguments m' s' a' ts') := by
  induction ht generalizing a a' with
  | nil => exact sim_pure h
  | @cons t t' ts ts' hx _ ih =>
    have hplain := sim_bind (hm.tree hx hs) fun hv => ih (h.push hv)
    cases hx with
    | quoted hq =>
      refine sim_bind (hm.tree (.quoted hq) hs) fun hv => sim_then (sim_isMarked hv) fun _ => sim_ite ?_ ?_
      · exact sim_bind (sim_unmarked hv) fun hu => sim_bind (sim_addKeywords h rfl hu) fun ha => ih ha
      · exact ih (h.push hv)
    | same hc =>
      have hinner {e : Node} (he : e ∈ t.children) (hq : t.isQuoted = false) : B.Tree e e :=
        .same ((Node.closed_iff hq).mp hc e he)
      cases t with
      | unpack e =>
        have he := hinner (List.mem_append_left _ (List.mem_singleton_self e)) rfl
        exact sim_bind (hm.tree he hs) fun hv => sim_bind (sim_addUnpacked h hv) fun ha => ih ha
      | keywordUnpack e =>
        have he := hinner (List.mem_append_left _ (List.mem_singleton_self e)) rfl
        refine sim_bind (hm.tree he hs) fun hv => sim_bind (sim_unmarked hv) fun hu => ?_
        exact sim_bind (sim_addKeywords h rfl hu) fun ha => ih ha
      | quoted v => cases hc
      | _ => exact hplain

theorem sim_evalKeywords (h : B.Args a a') {ks ks' : List (String × Node)} (hk : Tables B.Tree ks ks') :
    B.Sim B.Args (evalKeywords m s a ks) (evalKeywords m' s' a' ks') := by
  induction hk generalizing a a' with
  | nil => exact sim_pure h
  | @cons p p' ks ks' hp _ ih =>
    obtain ⟨name, e⟩ := p
    obtain ⟨name', e'⟩ := p'
    obtain ⟨hn, he⟩ := hp
    obtain rfl : name = name' := hn
    refine sim_bind (hm.tree he hs) fun hv => sim_ite ?_ ?_
    · exact sim_bind (sim_addKeywords h rfl hv) fun ha => ih ha
    · exact ih ⟨h.positional, h.keywords.insert (.str name) hv⟩

theorem sim_defaultArgument (name : String) {e e' : Option Node} (he : Option.Rel B.Tree e e') :
    B.Sim B.Val (defaultArgument m s name e) (defaultArgument m' s' name e') := by
  cases he with
  | none => exact sim_fault rfl
  | some ht => exact hm.tree ht hs

omit hm hs in
variable (B) in
def Bound (p p' : List Value × Dict) : Prop := B.Vals p.1 p'.1 ∧ B.Dicts p.2 p'.2

omit hm hs in
/-- one more argument in front of those that are bound -/
theorem sim_bindMore {x y : Exec (List Value × Dict)} (hv : B.Val v v') (h : B.Sim B.Bound x y) :
    B.Sim B.Bound (x >>= fun p => pure (v :: p.1, p.2)) (y >>= fun p => pure (v' :: p.1, p.2)) :=
  sim_bind h fun hp => sim_pure ⟨.cons hv hp.1, hp.2⟩

theorem sim_bindCollecting (hp : B.Parameters ps ps') (h : B.Args a a') :
    B.Sim B.Bound (bindCollecting m s a ps) (bindCollecting m' s' a' ps') := by
  induction hp generalizing a a' with
  | nil => exact sim_pure ⟨.nil, h.keywords⟩
  | cons hx _ ih =>
    cases hx with
    | receiver => exact sim_fault rfl
    | keywords name =>
      exact sim_bind (sim_newDict h.keywords) fun hd => sim_bindMore hd (ih ⟨h.positional, .empty⟩)
    | rest name =>
      exact sim_bind (sim_newList h.positional) fun hl => sim_bindMore hl (ih ⟨.nil, h.keywords⟩)
    | plain name he =>
      obtain ⟨positional, keywords⟩ := a
      obtain ⟨positional', keywords'⟩ := a'
      obtain ⟨hpos, hkey⟩ := h
      dsimp only at hpos hkey
      cases hpos with
      | cons hv hvs => exact sim_bindMore hv (ih ⟨hvs, hkey⟩)
      | nil =>
        rw [bindCollecting, bindCollecting]
        dsimp only
        refine rel_elim (hkey.get? name) ?_ fun hv => ?_
        · exact sim_bind (sim_defaultArgument hm hs name he) fun hv => sim_bindMore hv (ih ⟨.nil, hkey⟩)
        · exact sim_bindMore hv (ih ⟨.nil, hkey.erase (.str name)⟩)

theorem sim_bindPlain (hp : B.Parameters ps ps') (h : B.Args a a') :
    B.Sim B.Bound (bindPlain m s a ps) (bindPlain m' s' a' ps') := by
  induction hp generalizing a a' with
  | nil => exact sim_pure ⟨.nil, h.keywords⟩
  | cons hx _ ih =>
    cases hx with
    | plain name he =>
      obtain ⟨positional, keywords⟩ := a
      obtain ⟨positional', keywords'⟩ := a'
      obtain ⟨hpos, hkey⟩ := h
      dsimp only at hpos hkey
      rw [bindPlain, bindPlain]
      dsimp only
      refine rel_elim (hkey.get? name) ?_ fun hv => ?_
      · cases hpos with
        | cons hv hvs => exact sim_bindMore hv (ih ⟨hvs, hkey⟩)
        | nil => exact sim_bind (sim_defaultArgument hm hs name he) fun hv => sim_bindMore hv (ih ⟨.nil, hkey⟩)
      · exact sim_bindMore hv (ih ⟨hpos, hkey.erase (.str name)⟩)
    | _ => exact sim_fault rfl

omit hm hs in
theorem keywordNames_eq (n : Nat) (h : B.Vals vs vs') : keywordNames n vs = keywordNames n vs' := by
  induction h generalizing n with
  | nil => rfl
  | cons hv _ ih =>
    cases hv with
    | str name => rw [keywordNames, keywordNames, ih]
    | _ => rfl

omit hm hs in
theorem Parameters.any (h : B.Parameters ps ps') {p : Param Node → Bool}
    (hp : ∀ {x y}, B.Parameter x y → p x = p y) : ps.any p = ps'.any p := any_congr hp h

theorem sim_bindArguments (hp : B.Parameters ps ps') (h : B.Args a a') :
    B.Sim B.Vals (bindArguments m s ps a) (bindArguments m' s' ps' a') := by
  have hrec : ps.any Param.isReceiver = ps'.any Param.isReceiver := hp.any fun hx => by cases hx <;> rfl
  have hcol : ps.any Param.isCollector = ps'.any Param.isCollector := hp.any fun hx => by cases hx <;> rfl
  unfold bindArguments
  rw [hrec, hcol]
  refine sim_check rfl (sim_ite ?collecting ?others)
  case' collecting => refine sim_bind (sim_bindCollecting hm hs hp h) ?_
  case' others => refine sim_bind (sim_bindPlain hm hs hp h) ?_
  all_goals
    rintro ⟨xs, left⟩ ⟨xs', left'⟩ ⟨hxs, hleft⟩
    dsimp only at hxs hleft ⊢
    rw [isEmpty_congr hleft]
    refine sim_ite (sim_pure hxs) ?_
    refine sim_then (sim_ofExcept (.known (known_keywordNames 0 left'.keys) ?_)) fun names => sim_fault rfl
    exact keywordNames_eq 0 hleft.keys

/-! ## calls of expressions -/

omit hm hs in
theorem zip_rel (names : List String) (h : B.Vals vs vs') : Tables B.Val (names.zip vs) (names.zip vs') := by
  induction names generalizing vs vs' with
  | nil => exact .nil
  | cons name names ih =>
    cases h with
    | nil => exact .nil
    | cons hv hvs => exact .cons ⟨rfl, hv⟩ (ih hvs)

omit hm hs in
theorem foldl_rel {γ δ : Type} {S : γ → δ → Prop} {f : γ → α → γ} {g : δ → β → δ}
    (hf : ∀ {c d x y}, S c d → R x y → S (f c x) (g d y)) {xs : List α} {ys : List β}
    (h : List.Forall₂ R xs ys) {c : γ} {d : δ} (hc : S c d) : S (xs.foldl f c) (ys.foldl g d) := by
  induction h generalizing c d with
  | nil => exact hc
  | cons hx _ ih => exact ih (hf hc hx)

omit hm hs in
theorem sim_constructParts (name : String) {c c' : ClassInfo} (hc : B.Class c c') (h : B.Vals vs vs') :
    B.Sim B.Val (constructParts name c vs) (constructParts name c' vs') := by
  have hparts : classParts c = classParts c' := by rw [classParts, classParts, hc.parents]
  unfold constructParts
  dsimp only
  rw [hparts, h.length_eq]
  refine sim_check rfl (sim_newDict (foldl_rel (fun {d d' p p'} hd hp => ?_) (zip_rel _ h) ?_))
  · obtain ⟨k, x⟩ := p
    obtain ⟨k', x'⟩ := p'
    obtain ⟨hk, hx⟩ := hp
    obtain rfl : k = k' := hk
    exact hd.insert (.str k) hx
  · exact .cons ⟨.str _, .str _⟩ .nil

omit hm hs in
theorem sim_callOther {c c' whole whole' : Node} (hc : B.Tree c c') (hv : B.Val v v')
    (hw : ∀ {w w'}, B.Match w w' → w.nodeText whole = w'.nodeText whole') (h : B.Vals vs vs') :
    B.Sim B.Val (callOther c v whole vs) (callOther c' v' whole' vs') := by
  have hother := sim_then (sim_plain hv) fun text =>
    sim_fault (B := B) (R := B.Val) (f := .notAFunction text) rfl
  cases hc with
  | quoted hq => exact hother
  | same hc =>
    cases c with
    | var name =>
      refine sim_get fun hu => ?_
      refine rel_elim (hu.classes.find? name) ?_ fun hk => sim_constructParts name hk h
      refine sim_get fun hx => ?_
      rw [hw hx]
      exact sim_fault rfl
    | _ => exact hother

/-- what is called on both sides -/
inductive Called (B : Bond) : Callee → Callee → Prop
  | value {v v' : Value} (h : B.Val v v') : Called B (.value v) (.value v')
  | textMethod (k : TextMethod) (s : String) : Called B (.textMethod k s) (.textMethod k s)
  | listMethod (k : ListMethod) {i j : Nat} (h : B.lists.Pairs i j) : Called B (.listMethod k i) (.listMethod k j)

omit hm hs in
theorem called_methodOf? (hv : B.Val v v') (attr : String) :
    Option.Rel B.Called (methodOf? v attr) (methodOf? v' attr) := by
  cases hv with
  | str s =>
    cases hk : TextMethod.ofName? attr <;> simp only [methodOf?, hk, Option.map]
    · exact .none
    · exact .some (.textMethod _ s)
  | list hp =>
    cases hk : ListMethod.ofName? attr <;> simp only [methodOf?, hk, Option.map]
    · exact .none
    · exact .some (.listMethod _ hp)
  | _ => exact .none

theorem sim_evalCallee {c c' : Node} (hc : B.Tree c c') :
    B.Sim B.Called (evalCallee m s c) (evalCallee m' s' c') := by
  have hvalue := sim_bind (hm.tree hc hs) fun hf => sim_pure (B := B) (Called.value hf)
  cases hc with
  | quoted hq => exact hvalue
  | same hc =>
    cases c with
    | getAttr object attr =>
      cases Shape.closed (B := B) hc rfl with
      | getAttr _ ho =>
        refine sim_bind (hm.tree ho hs) fun hv => ?_
        exact rel_elim (called_methodOf? hv attr)
          (sim_bind (sim_getAttribute hv attr) fun hf => sim_pure (.value hf)) fun hf => sim_pure hf
    | _ => exact hvalue

section
variable (ht : B.Trees ts ts') {ks ks' : List (String × Node)} (hk : Tables B.Tree ks ks')
include ht hk

theorem sim_withArguments {g g' : Arguments → Exec Value}
    (hg : ∀ {a a'}, B.Args a a' → B.Sim B.Val (g a) (g' a')) :
    B.Sim B.Val (evalArguments m s ⟨[], .empty⟩ ts >>= fun a => evalKeywords m s a ks >>= g)
      (evalArguments m' s' ⟨[], .empty⟩ ts' >>= fun a => evalKeywords m' s' a ks' >>= g') :=
  sim_bind (sim_evalArguments hm hs ⟨.nil, .empty⟩ ht) fun ha => sim_bind (sim_evalKeywords hm hs ha hk) hg

/-- a call of functions that stand for each other -/
theorem sim_applyFunction (c c' : Node) (hp : B.functions.Pairs i j) :
    B.Sim B.Val (applyCall m s c ts ks (.value (.function i))) (applyCall m' s' c' ts' ks' (.value (.function j))) := by
  refine sim_withArguments hm hs ht hk fun hb => sim_get fun hw => ?_
  refine sim_bind (sim_bindArguments hm hs (hw.function hp).params hb) fun hxs => ?_
  exact hm.call (.function hp) hxs

/-- a call of constructors or bound methods, if their calls simulate each other -/
theorem sim_applyCallable (c c' : Node)
    (h : ∀ {vs vs'}, B.Vals vs vs' → B.Sim B.Val (m.call (.callable i) vs) (m'.call (.callable j) vs')) :
    B.Sim B.Val (applyCall m s c ts ks (.value (.callable i))) (applyCall m' s' c' ts' ks' (.value (.callable j))) :=
  sim_withArguments hm hs ht hk fun hb => h (List.rel_append hb.positional hb.keywords.values)

theorem sim_evalCall {c c' : Node} (hc : B.Tree c c') :
    B.Sim B.Val (evalCall m s c ts ks) (evalCall m' s' c' ts' ks') := by
  refine sim_bind (sim_evalCallee hm hs hc) fun hf => ?_
  cases hf with
  | textMethod k s =>
    exact sim_withArguments hm hs ht hk fun hb =>
      sim_callTextMethod k s (List.rel_append hb.positional hb.keywords.values)
  | listMethod k hl =>
    exact sim_withArguments hm hs ht hk fun hb =>
      sim_callListMethod k hl (List.rel_append hb.positional hb.keywords.values)
  | value hf =>
    have hf0 := hf
    cases hf with
    | function hp => exact sim_applyFunction hm hs ht hk c c' hp
    | callable hp => exact sim_applyCallable hm hs ht hk c c' (hm.call (.callable hp))
    | builtin b =>
      refine sim_withArguments hm hs ht hk fun hb => ?_
      exact hm.call (.builtin b) (List.rel_append hb.positional hb.keywords.values)
    | _ =>
      refine sim_withArguments hm hs ht hk fun hb => ?_
      exact sim_callOther hc hf0 (fun hw => hw.nodeText_call hc ht hk) hb.positional

end

end

end

end Bond

end BraceScript
