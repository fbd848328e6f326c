import BraceScript.Proofs.Simulation.Rules

/-!
# The machine simulates itself

From states that stand for each other the machine ends alike, as long as it does not look up a name that may
be bound to values that do not stand for each other. To say so, the machine of the first run is guarded: it
stops before a tree that looks up such a name.

* `Node.lookups`        the variables that the rule of a tree looks up
* `Bond.Hidden`         a name that is bound as at the start, to values that may not stand for each other
* `Bond.Seen`           the variables of embedded statements
* `execPlain_outcome`   the rules of trees
* `guarded`             the machine that stops before chosen trees
* `machines_guarded`, `machines_same`   machines that simulate each other
-/

namespace BraceScript

open Exec

/-! ## variables of embedded statements -/

section
variable {α : Type} {xs : List (String × α)} {name : String}

/-- names that are bound once are looked up among the values that are kept -/
theorem lookup_filter (hn : (xs.map Prod.fst).Nodup) (q : α → Bool) (name : String) :
    (xs.filter fun p => q p.2).lookup name = (xs.lookup name).filter q := by
  induction xs with
  | nil => rfl
  | cons p xs ih =>
    obtain ⟨k, x⟩ := p
    rw [List.map_cons, List.nodup_cons] at hn
    rw [List.filter_cons, lookup_cons_eq]
    by_cases hk : name = k
    · subst hk
      have hnone : xs.lookup name = none := lookup_eq_none hn.1
      rw [if_pos rfl, Option.filter_some]
      split
      · rw [lookup_cons_eq, if_pos rfl]
      · rw [ih hn.2, hnone]
        rfl
    · rw [if_neg hk, ← ih hn.2]
      split
      · rw [lookup_cons_eq, if_neg hk]
      · rfl

end

namespace Scope

def bindAll (c : Scope) : EmbeddedVars → Scope
  | [] => c
  | (name, v) :: rest => if v.isCallable then c.bindAll rest else (c.insert name v).bindAll rest

theorem Distinct.bindAll {c : Scope} (h : c.Distinct) (vars : EmbeddedVars) : (c.bindAll vars).Distinct := by
  induction vars generalizing c with
  | nil => exact h
  | cons p vars ih =>
    obtain ⟨name, v⟩ := p
    rw [Scope.bindAll]
    split
    · exact ih h
    · exact ih (h.insert name v)

theorem find?_bindAll (c : Scope) {vars : EmbeddedVars} (hn : (vars.map Prod.fst).Nodup) (name : String) :
    (c.bindAll vars).find? name =
      ((vars.lookup name).filter fun v => !v.isCallable).or (c.find? name) := by
  induction vars generalizing c with
  | nil => rfl
  | cons p vars ih =>
    obtain ⟨k, v⟩ := p
    rw [List.map_cons, List.nodup_cons] at hn
    rw [bindAll, lookup_cons_eq]
    by_cases hk : name = k
    · subst hk
      have hnone : vars.lookup name = none := lookup_eq_none hn.1
      rw [if_pos rfl]
      cases hv : v.isCallable
      · rw [if_neg Bool.false_ne_true, ih _ hn.2, find?_insert, if_pos rfl, hnone,
          Option.filter_some, hv]
        rfl
      · rw [if_pos rfl, ih _ hn.2, hnone, Option.filter_some, hv]
        rfl
    · rw [if_neg hk]
      split
      · exact ih c hn.2
      · rw [ih _ hn.2, find?_insert, if_neg hk]

theorem unnamed_bindAll (c : Scope) (vars : EmbeddedVars) : (c.bindAll vars).unnamed = c.unnamed := by
  induction vars generalizing c with
  | nil => rfl
  | cons p vars ih =>
    obtain ⟨name, v⟩ := p
    rw [bindAll]
    split
    · exact ih c
    · rw [ih, unnamed_insert]

end Scope

theorem modify_modify {α : Type} (xs : Array α) (i : Nat) (f g : α → α) :
    (xs.modify i f).modify i g = xs.modify i fun x => g (f x) := by
  refine Array.ext_getElem? fun j => ?_
  simp only [Array.getElem?_modify]
  split
  · rw [Option.map_map]
    rfl
  · rfl

theorem bindVars_run (s : Nat) (vars : EmbeddedVars) (w : World) :
    bindVars s vars w = .ok ⟨⟩ { w with scopes := w.scopes.modify s fun c => c.bindAll vars } := by
  induction vars generalizing w with
  | nil =>
    have hm : (w.scopes.modify s fun c => c.bindAll []) = w.scopes := by
      refine Array.ext_getElem? fun j => ?_
      rw [Array.getElem?_modify]
      split
      · exact Option.map_id'
      · rfl
    rw [hm]
    rfl
  | cons p vars ih =>
    obtain ⟨name, v⟩ := p
    rw [bindVars]
    cases hv : v.isCallable
    · rw [if_neg Bool.false_ne_true, bind_run]
      show bindVars s vars { w with scopes := w.scopes.modify s fun c => c.insert name v } = _
      rw [ih, modify_modify]
      simp only [Scope.bindAll, hv, Bool.false_eq_true, if_false]
    · rw [if_pos rfl, ih]
      simp only [Scope.bindAll, hv, if_true]

/-! ## names that are looked up -/

def EmbeddedExpr.names : EmbeddedExpr → List String
  | .int _ => []
  | .text _ => []
  | .name s => [s]
  | .sum a b => a.names ++ b.names

/-- the names that a statement of the embedded language looks up. Those of an assignment between quotes count if
`print` may run it. -/
def EmbeddedStmt.names (runs : Bool) : EmbeddedStmt → List String
  | .skip => []
  | .bind _ e => e.names
  | .update name _ e => name :: e.names
  | .drop e => e.names
  | .print args =>
    "print" :: args.flatMap EmbeddedExpr.names ++ if runs then (quotedAssignment? args).elim [] (·.2.names) else []

/-- the names that a statement of the embedded language binds, likewise -/
def EmbeddedStmt.targets (runs : Bool) : EmbeddedStmt → List String
  | .print args => if runs then ((quotedAssignment? args).map Prod.fst).toList else []
  | statement => statement.target?.toList

def ofText (f : EmbeddedStmt → List String) (text : String) : List String :=
  match EmbeddedStmt.read text with
  | .ok statement => f statement
  | .error _ => []

/-- the names that the statements of some texts assign -/
def assignedIn (texts : List String) : List String := texts.flatMap (ofText (·.targets false))

/-- can `print` stand for another function in a block of texts? -/
def givesPrint (texts : List String) : Bool := (assignedIn texts).contains "print"

def namesIn (code : String) : List String :=
  let texts := embeddedTexts code
  texts.flatMap (ofText (·.names (givesPrint texts)))

/-- the names that a block binds -/
def targetsIn (code : String) : List String :=
  let texts := embeddedTexts code
  texts.flatMap (ofText (·.targets (givesPrint texts)))

/-- the variables that the rule of a tree looks up by itself, each with its scope -/
def Node.lookups (scope globals : Nat) : Node → List (Nat × String)
  | .var name => [(scope, name)]
  | .augAssign name _ _ => [(scope, name)]
  | .global name => [(globals, name)]
  | .embedded code => (namesIn code).map fun name => (scope, name)
  | _ => []

/-- the names that the rule of a tree binds by itself -/
def Node.bound : Node → List String
  | .listComp _ name _ _ _ => [name]
  | .dictComp _ _ name _ _ => [name]
  | .assign name _ => [name]
  | .augAssign name _ _ => [name]
  | .forEach name _ _ _ => [name]
  | .global name => [name]
  | .tryCatch name _ _ => name.toList
  | .classDef decl => [decl.name]
  | .define method => [method.name]
  | .embedded code => targetsIn code
  | _ => []

namespace Bond

variable {B : Bond} {w w' : World} {s s' : Nat} {t t' : Node} {m m' : Machine}

variable (B) in
/-- a name that is bound in a scope as at the start, to a value that may stand for none -/
def Hidden (s : Nat) (w : World) (name : String) : Prop :=
  B.foreign name ∧ (w.scope s).find? name = B.own name

variable (B) in
/-- the rule of a tree looks up no hidden name and binds no pinned one -/
structure Clear (s : Nat) (w : World) (t : Node) : Prop where
  lookups : ∀ p ∈ t.lookups s w.globals, ¬ B.Hidden p.1 w p.2
  bound : ∀ name ∈ t.bound, ¬ B.pinned name

theorem Match.found (hw : B.Match w w') (hs : B.scopes.Pairs s s') {name : String}
    (hn : ¬ B.Hidden s w name) :
    Option.Rel B.Val ((w.scope s).find? name) ((w'.scope s').find? name) := by
  rcases (hw.scope hs).find name with hr | ⟨hf, ho, -⟩
  · exact hr
  · exact absurd ⟨hf, ho⟩ hn

/-! ## variables -/

theorem lookup_outcome (hw : B.Match w w') (hs : B.scopes.Pairs s s') {name : String}
    (hn : ¬ B.Hidden s w name) : B.Outcome B.Val (lookup s name w) (lookup s' name w') := by
  have hr := hw.found hs hn
  unfold lookup
  rw [bind_run, bind_run]
  dsimp only [get_run]
  exact rel_elim hr (sim_fault rfl _ _ hw) fun hv => sim_pure hv _ _ hw

theorem evalAugAssign_outcome (hm : B.Machines m m') (hw : B.Match w w') (hs : B.scopes.Pairs s s')
    {name : String} (hn : ¬ B.Hidden s w name) (hb : ¬ B.pinned name) (op : AugOp) (ht : B.Tree t t') :
    B.Outcome B.Val (evalAugAssign m s name op t w) (evalAugAssign m' s' name op t' w') := by
  have hr := hw.found hs hn
  unfold evalAugAssign
  rw [bind_run, bind_run]
  dsimp only [get_run]
  refine rel_elim hr (sim_fault rfl _ _ hw) fun hv => ?_
  refine sim_bind (sim_applyUpdate op (sim_pure hv) (hm.tree ht hs)) (fun hx => ?_) _ _ hw
  exact sim_then (sim_bindName hs hb hx) fun _ => sim_pure hx

theorem evalGlobal_outcome (hw : B.Match w w') (hs : B.scopes.Pairs s s') {name : String}
    (hn : ¬ B.Hidden w.globals w name) (hb : ¬ B.pinned name) :
    B.Outcome B.Val (evalGlobal s name w) (evalGlobal s' name w') := by
  have hr := hw.found hw.pairs_globals hn
  unfold evalGlobal
  rw [bind_run, bind_run]
  dsimp only [get_run]
  refine rel_elim hr ?_ fun hv => sim_then (sim_bindName hs hb hv) (fun _ => sim_pure .null) _ _ hw
  refine sim_then (sim_bindName hw.pairs_globals hb .null) (fun _ => ?_) _ _ hw
  exact sim_then (sim_bindName hs hb .null) fun _ => sim_pure .null

/-! ## embedded statements -/

variable (B) in
/-- the variables of embedded statements that run in two scopes: the names in use are bound to values that
stand for each other, and the others are bound as in the scopes, unless they are functions; so are the pinned
names -/
structure Seen (c c' : Scope) (used : List String) (vars vars' : EmbeddedVars) : Prop where
  distinct : (vars.map Prod.fst).Nodup
  distinct' : (vars'.map Prod.fst).Nodup
  find (name : String) : Option.Rel B.Val (vars.lookup name) (vars'.lookup name) ∨
    name ∉ used ∧ vars.lookup name = (c.find? name).filter (fun v => !v.isCallable) ∧
      vars'.lookup name = (c'.find? name).filter (fun v => !v.isCallable)
  pinned {name : String} : B.pinned name → vars'.lookup name = (c'.find? name).filter (fun v => !v.isCallable)

section
variable {c c' : Scope} {used : List String} {vars vars' : EmbeddedVars}

theorem Seen.get (h : B.Seen c c' used vars vars') {name : String} (hn : name ∈ used) :
    Option.Rel B.Val (vars.lookup name) (vars'.lookup name) := by
  rcases h.find name with hr | ⟨hu, -⟩
  · exact hr
  · exact absurd hn hu

theorem nodup_keys_putAt {α : Type} {xs : List (String × α)} (h : (xs.map Prod.fst).Nodup) (name : String)
    (x : α) : ((putAt name x xs).map Prod.fst).Nodup := by
  rw [keys_putAt]
  split
  · exact h
  · rename_i hn
    refine List.nodup_append.mpr ⟨h, List.nodup_singleton name, fun a ha b hb he => ?_⟩
    rw [List.mem_singleton.mp hb] at he
    exact hn (he ▸ ha)

theorem Seen.putAt (h : B.Seen c c' used vars vars') {name : String} (hn : ¬ B.pinned name) {v v' : Value}
    (hv : B.Val v v') : B.Seen c c' used (putAt name v vars) (BraceScript.putAt name v' vars') where
  distinct := nodup_keys_putAt h.distinct name v
  distinct' := nodup_keys_putAt h.distinct' name v'
  find other := by
    rw [lookup_putAt, lookup_putAt]
    split
    · exact Or.inl (.some hv)
    · exact h.find other
  pinned {other} ho := by
    rw [lookup_putAt, if_neg]
    · exact h.pinned ho
    · rintro rfl
      exact hn ho

theorem hostNamed_rel (name : String) : Option.Rel B.Val (hostNamed? name) (hostNamed? name) := by
  unfold hostNamed?
  repeat' split
  all_goals first
    | exact .some (.builtin _)
    | exact .some (.str _)
    | exact .none

theorem sim_embeddedMissing (name : String) : B.Sim B.Val (embeddedMissing name) (embeddedMissing name) :=
  sim_ite sim_giveUp (sim_fault rfl)

theorem sim_embeddedLookup (h : B.Seen c c' used vars vars') {name : String} (hn : name ∈ used) :
    B.Sim B.Val (embeddedLookup vars name) (embeddedLookup vars' name) := by
  have hr : Option.Rel B.Val ((vars.lookup name).or (hostNamed? name)) ((vars'.lookup name).or (hostNamed? name)) :=
    rel_elim (h.get hn) (hostNamed_rel name) fun hv => .some hv
  unfold embeddedLookup
  split
  · exact sim_pure (.bool true)
  · exact sim_pure (.bool false)
  · exact sim_pure .null
  · exact sim_pure (.bool true)
  · exact rel_elim hr (sim_embeddedMissing name) fun hv => sim_pure hv

theorem sim_embeddedExpr (h : B.Seen c c' used vars vars') (e : EmbeddedExpr)
    (hn : ∀ name ∈ e.names, name ∈ used) : B.Sim B.Val (e.eval vars) (e.eval vars') := by
  induction e with
  | int n => exact sim_pure (.int n)
  | text text => exact sim_pure (.str text)
  | name name => exact sim_embeddedLookup h (hn name List.mem_cons_self)
  | sum a b iha ihb =>
    refine sim_bind (iha fun n hm => hn n (List.mem_append_left _ hm)) fun hx => ?_
    exact sim_bind (ihb fun n hm => hn n (List.mem_append_right _ hm)) fun hy => sim_arith .add hx hy

theorem updateFault_rel {f f' : Fault} (h : B.Fail f f') : B.Fail (updateFault f) (updateFault f') := by
  cases h with
  | plain hp =>
    refine .plain ?_
    unfold updateFault
    split
    · rfl
    · exact hp
  | thrown h => exact .thrown h
  | missingKey h => exact .missingKey h

theorem sim_updateArith (op : ArithOp) {v v' u u' : Value} (hv : B.Val v v') (hu : B.Val u u') :
    B.Sim B.Val (updateArith op v u) (updateArith op v' u') := by
  refine sim_tryCatch (sim_arith op hv hu) (fun he => ?_) rfl
  cases he with
  | fault hf => exact sim_fail (updateFault_rel hf)
  | breakLoop => exact sim_throw .breakLoop
  | continueLoop => exact sim_throw .continueLoop
  | exhausted => exact sim_throw .exhausted

theorem sim_updatedValue (op : ArithOp) {v v' u u' : Value} (hv : B.Val v v') (hu : B.Val u u') :
    B.Sim B.Val (updatedValue op v u) (updatedValue op v' u') := by
  have hplain := sim_updateArith op hv hu
  have hv0 := hv
  unfold updatedValue
  rw [hu.int?]
  cases hv with
  | list hp =>
    cases op with
    | add =>
      refine sim_bind (sim_items hu) fun hmore => ?_
      refine sim_then (sim_modifyList hp fun ha => ?_) fun _ => sim_pure hv0
      rw [Array.toList_append, Array.toList_append]
      exact List.rel_append ha hmore
    | mul =>
      cases u'.int? with
      | none => exact hplain
      | some n =>
        refine sim_bind (sim_arith .mul hv0 hu) fun hx => ?_
        cases hx with
        | list hq => exact sim_get fun hw => sim_then (sim_setList hp (hw.list hq)) fun _ => sim_pure hv0
        | _ => exact sim_pure hv0
    | _ => exact hplain
  | _ => cases op <;> exact hplain

theorem sim_embeddedPrint {vs vs' : List Value} (h : B.Vals vs vs') :
    B.Sim Eq (embeddedPrint vs) (embeddedPrint vs') := by
  induction h with
  | nil => exact sim_write _
  | cons hv hvs ih =>
    cases hvs with
    | nil => exact sim_then (sim_plain hv) fun _ => sim_write _
    | cons _ _ => exact sim_then (sim_plain hv) fun _ => sim_then (sim_write _) fun _ => ih

theorem sim_embeddedCall {v v' : Value} {vs vs' : List Value} (hv : B.Val v v') (h : B.Vals vs vs') :
    B.Sim Eq (embeddedCall v vs) (embeddedCall v' vs') := by
  have hkind := hv.kindName
  cases hv with
  | builtin b =>
    cases b with
    | host p =>
      cases p with
      | print => exact sim_embeddedPrint h
      | _ => exact sim_giveUp
    | _ => exact sim_giveUp
  | _ =>
    unfold embeddedCall
    dsimp only
    rw [hkind]
    exact sim_fault rfl

/-- `print` does not stand for a function that runs texts, unless the block may bind it -/
def PrintsOnly (runs : Bool) (vars : EmbeddedVars) : Prop :=
  runs = false → ∀ v, vars.lookup "print" = some v → v.isCallable = false

theorem PrintsOnly.putAt {runs : Bool} (h : PrintsOnly runs vars) {name : String} (hn : runs = false → name ≠ "print")
    (v : Value) : PrintsOnly runs (putAt name v vars) := by
  intro hr u hu
  rw [lookup_putAt, if_neg (hn hr).symm] at hu
  exact h hr u hu

theorem embeddedLookup_print (vars : EmbeddedVars) :
    embeddedLookup vars "print" = pure ((vars.lookup "print").getD (.builtin (.host .print))) := by
  unfold embeddedLookup
  cases vars.lookup "print" <;> rfl

theorem PrintsOnly.ne_exec (h : PrintsOnly false vars) :
    (vars.lookup "print").getD (.builtin (.host .print)) ≠ hostExec := by
  intro he
  cases hv : vars.lookup "print" with
  | none =>
    rw [hv] at he
    cases he
  | some v =>
    rw [hv] at he
    cases he
    cases h rfl _ hv

theorem Val.eq_hostExec_iff {v v' : Value} (h : B.Val v v') : v = hostExec ↔ v' = hostExec := by
  cases h <;> simp [hostExec]

/-- what is kept while statements run on both sides -/
abbrev Follows (B : Bond) (c c' : Scope) (used : List String) (runs : Bool) (vars vars' : EmbeddedVars) : Prop :=
  B.Seen c c' used vars vars' ∧ PrintsOnly runs vars

theorem Follows.putAt {runs : Bool} (h : B.Follows c c' used runs vars vars') {name : String} (hn : ¬ B.pinned name)
    (hp : runs = false → name ≠ "print") {v v' : Value} (hv : B.Val v v') :
    B.Follows c c' used runs (BraceScript.putAt name v vars) (BraceScript.putAt name v' vars') :=
  ⟨h.1.putAt hn hv, h.2.putAt hp v⟩

theorem sim_printStatement {runs : Bool} (h : B.Follows c c' used runs vars vars') (args : List EmbeddedExpr)
    (hn : ∀ name ∈ EmbeddedStmt.names runs (.print args), name ∈ used)
    (hb : ∀ name ∈ EmbeddedStmt.targets runs (.print args), ¬ B.pinned name) :
    B.Sim (B.Follows c c' used runs) (EmbeddedStmt.run vars (.print args)) (EmbeddedStmt.run vars' (.print args)) := by
  have ha : List.Forall₂ (fun e e' => e = e' ∧ e ∈ args) args args :=
    List.forall₂_same.mpr fun e he => ⟨rfl, he⟩
  have hf : B.Val ((vars.lookup "print").getD (.builtin (.host .print)))
      ((vars'.lookup "print").getD (.builtin (.host .print))) :=
    rel_elim (h.1.get (hn "print" List.mem_cons_self)) (.builtin _) fun hv => hv
  have hvalues : B.Sim B.Vals (args.mapM (·.eval vars)) (args.mapM (·.eval vars')) := by
    refine sim_mapM ha ?_
    rintro e _ ⟨rfl, he⟩
    refine sim_embeddedExpr h.1 e fun n hm => hn n (List.mem_cons_of_mem _ (List.mem_append_left _ ?_))
    exact List.mem_flatMap.mpr ⟨e, he, hm⟩
  rw [EmbeddedStmt.run, EmbeddedStmt.run, embeddedLookup_print, embeddedLookup_print, pure_bind, pure_bind]
  refine sim_bind hvalues fun hvs => ?_
  have hcall := sim_then (sim_embeddedCall hf hvs) fun _ => sim_pure h
  cases hq : quotedAssignment? args with
  | none => exact hcall
  | some q =>
    obtain ⟨name, e⟩ := q
    cases runs with
    | false =>
      dsimp only
      rw [if_neg h.2.ne_exec, if_neg (mt hf.eq_hostExec_iff.mpr h.2.ne_exec)]
      exact hcall
    | true =>
      have hnames : ∀ n ∈ e.names, n ∈ used := fun n hm =>
        hn n (List.mem_append_right _ (by simpa [hq] using hm))
      have hname : ¬ B.pinned name := hb name (by simp [EmbeddedStmt.targets, hq])
      refine sim_ite_iff hf.eq_hostExec_iff ?_ hcall
      exact sim_bind (sim_embeddedExpr h.1 e hnames) fun hv => sim_pure (h.putAt hname nofun hv)

theorem sim_embeddedStmt {runs : Bool} (h : B.Follows c c' used runs vars vars') (statement : EmbeddedStmt)
    (hn : ∀ name ∈ statement.names runs, name ∈ used) (hb : ∀ name ∈ statement.targets runs, ¬ B.pinned name)
    (hp : runs = false → "print" ∉ statement.targets false) :
    B.Sim (B.Follows c c' used runs) (statement.run vars) (statement.run vars') := by
  cases statement with
  | skip => exact sim_pure h
  | bind name e =>
    refine sim_bind (sim_embeddedExpr h.1 e hn) fun hv => sim_pure (h.putAt (hb name List.mem_cons_self) ?_ hv)
    exact fun hr he => hp hr (he ▸ List.mem_cons_self)
  | update name op e =>
    refine sim_bind (sim_embeddedLookup h.1 (hn name List.mem_cons_self)) fun hv => ?_
    refine sim_bind (sim_embeddedExpr h.1 e fun n hm => hn n (List.mem_cons_of_mem _ hm)) fun hx => ?_
    refine sim_bind (sim_updatedValue op hv hx) fun hy => sim_pure (h.putAt (hb name List.mem_cons_self) ?_ hy)
    exact fun hr he => hp hr (he ▸ List.mem_cons_self)
  | drop e => exact sim_bind (sim_embeddedExpr h.1 e hn) fun _ => sim_pure h
  | print args => exact sim_printStatement h args hn hb

theorem sim_take {α : Type} (r : Reading α) : B.Sim (fun a b => a = b ∧ r = .ok a) r.take r.take := by
  cases r with
  | ok a => exact sim_pure ⟨rfl, rfl⟩
  | error f =>
    cases f with
    | none => exact sim_giveUp
    | some flaw => exact sim_fault rfl

theorem sim_runStatements {runs : Bool} (h : B.Follows c c' used runs vars vars') {texts : List String}
    (hn : ∀ name ∈ texts.flatMap (ofText (·.names runs)), name ∈ used)
    (hb : ∀ name ∈ texts.flatMap (ofText (·.targets runs)), ¬ B.pinned name)
    (hp : runs = false → "print" ∉ assignedIn texts) :
    B.Sim (B.Follows c c' used runs) (runStatements vars texts) (runStatements vars' texts) := by
  induction texts generalizing vars vars' with
  | nil => exact sim_pure h
  | cons text texts ih =>
    refine sim_bind (sim_take _) ?_
    rintro statement _ ⟨rfl, hr⟩
    have htext (f : EmbeddedStmt → List String) : ofText f text = f statement := by rw [ofText, hr]
    rw [List.flatMap_cons, htext, List.forall_mem_append] at hn hb
    rw [assignedIn, List.flatMap_cons, htext, List.mem_append, not_or] at hp
    refine sim_bind (sim_embeddedStmt h statement hn.1 hb.1 fun hf => (hp hf).1) fun hv => ?_
    exact ih hv hn.2 hb.2 fun hf => (hp hf).2

theorem filter_rel {o o' : Option Value} (h : Option.Rel B.Val o o') :
    Option.Rel B.Val (o.filter fun v => !v.isCallable) (o'.filter fun v => !v.isCallable) := by
  cases h with
  | none => exact .none
  | some hv =>
    rw [Option.filter_some, Option.filter_some, hv.isCallable]
    split
    · exact .some hv
    · exact .none

/-- the variables that embedded statements see at first -/
theorem Seen.start (h : B.Vars c c')
    (hu : ∀ name ∈ used, Option.Rel B.Val (c.find? name) (c'.find? name)) :
    B.Seen c c' used (c.vars.filter fun p => !p.2.isCallable) (c'.vars.filter fun p => !p.2.isCallable) where
  distinct := (List.filter_sublist.map Prod.fst).nodup h.distinct
  distinct' := (List.filter_sublist.map Prod.fst).nodup h.distinct'
  find name := by
    rw [lookup_filter h.distinct (fun v => !v.isCallable), lookup_filter h.distinct' (fun v => !v.isCallable)]
    by_cases hm : name ∈ used
    · exact Or.inl (filter_rel (hu name hm))
    · exact Or.inr ⟨hm, rfl, rfl⟩
  pinned _ := lookup_filter h.distinct' (fun v => !v.isCallable) _

/-- a variable that comes back to its scope -/
theorem filter_or_self (o : Option Value) :
    ((o.filter fun v => !v.isCallable).filter fun v => !v.isCallable).or o = o := by
  cases o with
  | none => rfl
  | some v =>
    rw [Option.filter_filter]
    simp only [Bool.and_self, Option.filter_some]
    split <;> rfl

/-- the variables of embedded statements come back to scopes that stand for each other -/
theorem Seen.bindAll (hs : B.Seen c c' used vars vars') (h : B.Vars c c') :
    B.Vars (c.bindAll vars) (c'.bindAll vars') where
  distinct := h.distinct.bindAll vars
  distinct' := h.distinct'.bindAll vars'
  find name := by
    rw [Scope.find?_bindAll c hs.distinct, Scope.find?_bindAll c' hs.distinct']
    rcases hs.find name with hr | ⟨-, he, he'⟩
    · exact rel_elim (filter_rel hr) (h.find name) fun hv => Or.inl (.some hv)
    · rw [he, he', filter_or_self, filter_or_self]
      exact h.find name
  unnamed := by
    rw [Scope.unnamed_bindAll, Scope.unnamed_bindAll]
    exact h.unnamed

/-- a pinned name comes back as it was -/
theorem Seen.find?_pinned (hs : B.Seen c c' used vars vars') {name : String} (hn : B.pinned name) :
    (c'.bindAll vars').find? name = c'.find? name := by
  rw [Scope.find?_bindAll c' hs.distinct', hs.pinned hn, filter_or_self]

end

theorem runEmbedded_outcome (hw : B.Match w w') (hs : B.scopes.Pairs s s') {code : String}
    (hn : ∀ name ∈ namesIn code, ¬ B.Hidden s w name) (hb : ∀ name ∈ targetsIn code, ¬ B.pinned name) :
    B.Outcome B.Val (runEmbedded code s w) (runEmbedded code s' w') := by
  have hstart := Seen.start (hw.scope hs) fun name hm => hw.found hs (hn name hm)
  have hprint : PrintsOnly (givesPrint (embeddedTexts code)) ((w.scope s).vars.filter fun p => !p.2.isCallable) := by
    intro _ v hv
    rw [lookup_filter (hw.scope hs).distinct (fun v => !v.isCallable)] at hv
    simpa using (Option.filter_eq_some_iff.mp hv).2
  have hrun := sim_runStatements ⟨hstart, hprint⟩ (fun _ hm => hm) hb (by simp [givesPrint]) w w' hw
  have hkept := (steady_runStatements ((w.scope s).vars.filter fun p => !p.2.isCallable)
    (embeddedTexts code)).quiet.after w
  have hkept' := (steady_runStatements ((w'.scope s').vars.filter fun p => !p.2.isCallable)
    (embeddedTexts code)).quiet.after w'
  unfold runEmbedded
  rw [bind_run, bind_run]
  dsimp only [get_run]
  rw [bind_run, bind_run]
  unfold Exec.after at hkept hkept'
  revert hrun hkept hkept'
  generalize runStatements _ _ w = r
  generalize runStatements _ _ w' = r'
  intro hrun hkept hkept'
  cases hrun with
  | error he hu => exact .error he hu
  | stop hu => exact .stop hu _
  | @ok vars vars' u u' hr hu =>
    obtain ⟨hseen, -⟩ := hr
    dsimp only
    rw [bind_run, bind_run, bindVars_run, bindVars_run]
    have hcell {c : Scope} (hc : u.scopes[s]? = some c) : w.scope s = c := by
      rw [World.scope, Array.getD_eq_getD_getElem?, ← hkept.scopes, hc]
      rfl
    have hcell' {c' : Scope} (hc' : u'.scopes[s']? = some c') : w'.scope s' = c' := by
      rw [World.scope, Array.getD_eq_getD_getElem?, ← hkept'.scopes, hc']
      rfl
    refine .ok .null (hu.modifyScopeAt hs (fun {c c'} hc hc' hv => ?_) fun {c'} {name} hc' hp => ?_)
    · rw [hcell hc, hcell' hc'] at hseen
      exact hseen.bindAll hv
    · rw [hcell' hc'] at hseen
      exact hseen.find?_pinned hp

/-! ## trees -/

theorem sim_unknownNode (h : t.Closed) : B.Sim B.Val (unknownNode t) (unknownNode t) := by
  refine sim_get fun {w w'} hw => ?_
  rw [nodeText_closed h w w']
  exact sim_fault rfl

/-- **The rules of trees of one shape end alike,** if they look up no hidden name and bind no pinned one. -/
theorem execPlain_outcome (hm : B.Machines m m') (hs : B.scopes.Pairs s s') (h : B.Shape t t')
    (hw : B.Match w w') (hl : B.Clear s w t) :
    B.Outcome B.Val (execPlain m s t w) (execPlain m' s' t' w') := by
  cases h with
  | num n => cases n with
    | int n => exact sim_pure (.int n) w w' hw
    | real x => exact sim_pure (.float x) w w' hw
  | str text => exact sim_pure (.str text) w w' hw
  | var name => exact lookup_outcome hw hs (hl.lookups _ List.mem_cons_self)
  | list h => exact sim_bind (sim_evalItems hm hs .nil h) (fun ha => sim_newList ha) w w' hw
  | listComp name hb hi he hc =>
    exact sim_evalListComp hm hs hb (hl.bound name List.mem_cons_self) hi he hc w w' hw
  | dict h => exact sim_bind (sim_evalEntries hm hs .empty h) (fun hd => sim_newDict hd) w w' hw
  | dictComp name hk he hi hc =>
    exact sim_evalDictComp hm hs hk he (hl.bound name List.mem_cons_self) hi hc w w' hw
  | assign name h => exact sim_evalAssign hm hs (hl.bound name List.mem_cons_self) h w w' hw
  | augAssign name op h =>
    exact evalAugAssign_outcome hm hw hs (hl.lookups _ List.mem_cons_self) (hl.bound name List.mem_cons_self) op h
  | augAttr attr op ho he => exact sim_evalAugAttr hm hs ho attr op he w w' hw
  | augIndex op ho hi he => exact sim_evalAugIndex hm hs ho hi op he w w' hw
  | setIndex ho hi he => exact sim_evalSetIndex hm hs ho hi he w w' hw
  | setAttr attr ho he =>
    refine sim_bind (hm.tree ho hs) (fun hv => sim_bind (hm.tree he hs) fun hu => ?_) w w' hw
    exact sim_then (sim_putAttribute ho hv attr hu) fun _ => sim_pure hu
  | binop op ha hb => exact sim_bind (sim_operands hm hs ha hb) (fun hp => sim_arith op hp.1 hp.2) w w' hw
  | compare op ha hb =>
    exact sim_bind (sim_operands hm hs ha hb) (fun hp => sim_compareValues op hp.1 hp.2) w w' hw
  | inside ha hb =>
    refine sim_bind (sim_operands hm hs ha hb) (fun hp => ?_) w w' hw
    exact sim_then (sim_contains hp.2 hp.1) fun b => sim_pure (.bool b)
  | outside ha hb =>
    refine sim_bind (sim_operands hm hs ha hb) (fun hp => ?_) w w' hw
    exact sim_then (sim_contains hp.2 hp.1) fun b => sim_pure (.bool !b)
  | danglingOutside h => exact sim_unknownNode h w w' hw
  | and ha hb =>
    refine sim_bind (hm.tree ha hs) (fun hv => sim_then (sim_truth hv) fun b => ?_) w w' hw
    exact sim_ite (hm.tree hb hs) (sim_pure (.bool false))
  | or ha hb =>
    refine sim_bind (hm.tree ha hs) (fun hv => sim_then (sim_truth hv) fun b => ?_) w w' hw
    exact sim_ite (sim_pure (.bool true)) (hm.tree hb hs)
  | not ha =>
    exact sim_bind (hm.tree ha hs) (fun hv => sim_then (sim_truth hv) fun b => sim_pure (.bool !b)) w w' hw
  | neg h => exact sim_unknownNode h w w' hw
  | ternary hc ha hb =>
    refine sim_bind (hm.tree hc hs) (fun hv => sim_then (sim_truth hv) fun b => ?_) w w' hw
    exact sim_ite (hm.tree ha hs) (hm.tree hb hs)
  | call hc ha hk => exact sim_evalCall hm hs ha hk hc w w' hw
  | getAttr attr h => exact sim_bind (hm.tree h hs) (fun hv => sim_getAttribute hv attr) w w' hw
  | getItem ho hi => exact sim_evalGetItem hm hs ho hi w w' hw
  | index ho hi => exact sim_evalIndex hm hs ho hi w w' hw
  | slice ho ha hb hc => exact sim_evalSlice hm hs ho ha hb hc w w' hw
  | block h => exact sim_runBlock hm hs .null h w w' hw
  | ifChain h => exact sim_evalBranches hm hs h w w' hw
  | forEach name hi he ht => exact sim_evalFor hm hs (hl.bound name List.mem_cons_self) hi he ht w w' hw
  | whileLoop hc ht =>
    rw [execPlain, execPlain, hm.fuel]
    exact sim_whileTurns hm hs hc ht m'.fuel w w' hw
  | breakLoop => exact sim_throw .breakLoop w w' hw
  | continueLoop => exact sim_throw .continueLoop w w' hw
  | ret h =>
    refine sim_bind (sim_evalOption hm hs h) (fun hv => ?_) w w' hw
    exact sim_newTuple (.cons (.str "return") (.cons hv .nil))
  | global name =>
    exact evalGlobal_outcome hw hs (hl.lookups _ List.mem_cons_self) (hl.bound name List.mem_cons_self)
  | tryCatch name ht hu =>
    exact sim_evalTry hm hs (fun x hx => hl.bound x (Option.mem_toList.mpr hx)) ht hu w w' hw
  | throw h => exact sim_bind (hm.tree h hs) (fun hv => sim_fail (.thrown hv)) w w' hw
  | classDef h => exact sim_declareClass (hl.bound _ List.mem_cons_self) h w w' hw
  | define name hp ht => exact sim_declareFunction (hl.bound name List.mem_cons_self) hp ht hs w w' hw
  | lambda hp ht =>
    refine sim_get (fun hu => sim_bind (sim_newScope (hu.scope hs)) fun hi => ?_) w w' hw
    exact sim_bind (sim_newFunction ⟨hp, ht, hi⟩) fun hf => sim_pure (.function hf)
  | matchCase he hc => exact sim_bind (hm.tree he hs) (fun hv => sim_evalCases hm hs hv hc) w w' hw
  | embedded code =>
    exact runEmbedded_outcome hw hs (fun name hn => hl.lookups (s, name) (List.mem_map_of_mem hn)) hl.bound
  | includeFile path => exact sim_includeInPlace hm path hs w w' hw
  | unpack h => exact hm.tree h hs w w' hw
  | keywordUnpack h =>
    refine sim_bind (hm.tree h hs) (fun hv => ?_) w w' hw
    cases hv with
    | dict hp => exact sim_get fun hu => sim_newDict (hu.dict hp)
    | _ => exact sim_fault rfl

theorem sim_byRule {run run' : Node → Exec Value}
    (hr : ∀ {t t'}, B.Shape t t' → B.Sim B.Val (run t) (run' t')) (h : B.Code t t') :
    B.Sim B.Val (byRule run t) (byRule run' t') := by
  cases h with
  | shape h =>
    have hx := hr h
    cases h <;> exact hx
  | tree h =>
    cases h with
    | quoted hv => exact sim_evalQuoted hr hv
    | same hc =>
      cases t with
      | quoted v => cases hc
      | _ => exact hr (.closed hc rfl)

end Bond

/-! ## machines -/

/-- the machine that stops before chosen trees and leaves a given state. A quoted value is read before. -/
def guarded (p : Nat → World → Node → Bool) (u : World) : Nat → Machine
  | 0 => machine 0
  | n + 1 =>
    { exec := fun node scope => byRule (fun t w =>
        if p scope w t then .error .exhausted u else execPlain (guarded p u n) scope t w) node
      call := callValue (guarded p u n)
      fuel := n }

/-- some state is not the one that an outcome leaves -/
theorem exists_not_left {α : Type} (r : EStateM.Result Signal World α) : ∃ u, r ≠ .error .exhausted u := by
  cases r with
  | ok a w => exact ⟨w, nofun⟩
  | error s w =>
    refine ⟨{ w with nans := w.nans + 1 }, fun he => ?_⟩
    have hnans := congrArg World.nans (EStateM.Result.error.inj he).2
    exact Nat.ne_of_lt (Nat.lt_succ_self _) hnans

namespace Bond

variable {B : Bond}

theorem machines_zero : B.Machines (machine 0) (machine 0) :=
  ⟨fun _ _ _ _ hw => .error .exhausted hw, fun _ _ _ _ hw => .error .exhausted hw, rfl⟩

/-- **A machine that is guarded against hidden names simulates the machine.** -/
theorem machines_guarded {p : Nat → World → Node → Bool} {u : World} (hu : B.stops u)
    (hp : ∀ {s w t}, p s w t = false → B.Clear s w t) (n : Nat) :
    B.Machines (guarded p u n) (machine n) := by
  induction n with
  | zero => exact machines_zero
  | succ n ih =>
    refine ⟨fun ht hs => ?_, fun hv h => sim_callValue ih hv h, rfl⟩
    rw [machine_exec, execNode_byRule]
    refine sim_byRule (fun {t t'} h w w' hw => ?_) ht
    split
    · exact .stop hu _
    · exact execPlain_outcome ih hs h hw (hp (by simpa using ‹¬ p _ w t = true›))

/-- **The machine simulates itself** if all names are bound to values that stand for each other. -/
theorem machines_same (hf : ∀ name, ¬ B.foreign name) (hb : ∀ name, ¬ B.pinned name) (n : Nat) :
    B.Machines (machine n) (machine n) := by
  induction n with
  | zero => exact machines_zero
  | succ n ih =>
    refine ⟨fun ht hs => ?_, fun hv h => sim_callValue ih hv h, rfl⟩
    rw [machine_exec, machine_exec, execNode_byRule, execNode_byRule]
    refine sim_byRule (fun h w w' hw => execPlain_outcome ih hs h hw ⟨fun p _ hh => hf p.2 hh.1, ?_⟩) ht
    exact fun name _ => hb name

end Bond

end BraceScript
