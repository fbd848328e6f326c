import BraceScript.Proofs.Call.Arguments
import BraceScript.Proofs.Simulation.SameCells

/-!
# The turns of comprehensions and loops

A list comprehension has a loop that appends its values to a list with a name. For each item that they visit, the
comprehension and the body of the loop do the same, as long as nothing else looks up or binds the name. The
comprehension holds its list itself, and the loop has it in a variable.

* `Comprehension`, `Comprehension.loop`   a list comprehension, and the loop with a name for the list
* `Unused`               executing a tree never comes to a tree that mentions a name
* `gatherBond`           what stands for each other in the comprehension and in the loop
* `sim_turn`             an item is treated alike by both
* `places_outcome`       the places of the list are visited alike by both
-/

namespace BraceScript

open Exec

/-! ## comprehensions and loops -/

/-- a list comprehension, with or without a condition -/
structure Comprehension where
  value : Node
  var : String
  iterable : Node
  step : Node
  condition : Option Node

namespace Comprehension

variable (c : Comprehension)

def node : Node := .listComp c.value c.var c.iterable c.step c.condition.toList

/-- how the value is passed where it stands for an argument: an assignment to a name is a named argument -/
def passed : Parse.Argument :=
  match c.value with
  | .assign name e => .named name e
  | e => .positional e

def append (acc : String) : Node :=
  .call (.getAttr (.var acc) "append") (Parse.positionals [c.passed]) (Parse.nameds [] [c.passed])

/-- append the value if the condition is true -/
def body (acc : String) : List Node :=
  match c.condition with
  | none => [c.append acc]
  | some t => [.ifChain [(some t, [c.append acc])]]

/-- bind a name to an empty list, and append the values to it in a loop -/
def loop (acc : String) : Node :=
  .block [.assign acc (.list []), .forEach c.var c.iterable (some c.step) (c.body acc)]

/-- a comprehension of a program, whose value is neither unpacked nor an assignment to a name -/
structure Proper : Prop where
  closed : c.node.Closed
  assign : ∀ name t, c.value ≠ .assign name t
  unpack : ∀ t, c.value ≠ .unpack t
  keywordUnpack : ∀ t, c.value ≠ .keywordUnpack t

/-! ## one machine for all trees -/

/-- visit the places of a list as a loop does, with the same turn at each -/
def visit (scope : Nat) (var : String) (iterable : Value) (turn : Exec Value) : List Int → Exec Value
  | [] => pure .null
  | i :: rest => do
    let item ← element iterable (.int i)
    bindName scope var item
    if ← loopTurn turn then visit scope var iterable turn rest else return .null

theorem forPlaces_visit (m : Machine) (scope : Nat) (var : String) (v : Value) (body : List Node) (places : List Int) :
    forPlaces m scope var v body places = visit scope var v (runBlock m scope .null body) places := by
  induction places with
  | nil => rfl
  | cons i places ih =>
    rw [forPlaces, visit, ih]

theorem visit_below (scope : Nat) (var : String) (v : Value) {x y : Exec Value} (h : Below x y) (places : List Int) :
    Below (visit scope var v x places) (visit scope var v y places) := by
  have hturn : Below (loopTurn x) (loopTurn y) :=
    (Below.refl _).bind fun _ => (h.bind fun _ => .refl _).tryCatch (fun _ => .refl _) rfl
  induction places with
  | nil => exact .refl _
  | cons i places ih =>
    refine (Below.refl _).bind fun item => (Below.refl _).bind fun _ => hturn.bind fun b => ?_
    cases b with
    | true => exact ih
    | false => exact .refl _

def appendOn (m : Machine) (scope : Nat) (acc : String) : Exec Value :=
  evalCall m scope (.getAttr (.var acc) "append") (Parse.positionals [c.passed]) (Parse.nameds [] [c.passed]) >>=
    afterStatement m scope []

def bodyOn (m : Machine) (scope : Nat) (acc : String) : Exec Value :=
  match c.condition with
  | none => c.appendOn m scope acc
  | some t => (m.exec t scope >>= fun v => Exec.truth v >>= fun b =>
      if b then c.appendOn m scope acc else pure .null) >>= afterStatement m scope []

theorem bodyOn_below (n scope : Nat) (acc : String) :
    Below (c.bodyOn (machine n) scope acc) (runBlock (machine (n + 2)) scope .null (c.body acc)) := by
  unfold bodyOn body
  cases c.condition with
  | none => exact Below.bind (exec_mono (Nat.le_succ (n + 1)) (c.append acc) scope) fun _ => .refl _
  | some t =>
    refine Below.bind ?_ fun _ => .refl _
    refine Below.bind (exec_mono (Nat.le_succ n) t scope) fun v => (Below.refl _).bind fun b => ?_
    exact .refl _

theorem below_bodyOn (n scope : Nat) (acc : String) :
    Below (runBlock (machine n) scope .null (c.body acc)) (c.bodyOn (machine n) scope acc) := by
  have happend : Below ((machine n).exec (c.append acc) scope)
      (evalCall (machine n) scope (.getAttr (.var acc) "append") (Parse.positionals [c.passed])
        (Parse.nameds [] [c.passed])) :=
    exec_mono (Nat.le_succ n) (c.append acc) scope
  unfold bodyOn body
  cases c.condition with
  | none => exact happend.bind fun _ => .refl _
  | some t =>
    have hchain := exec_mono (Nat.le_succ n) (.ifChain [(some t, [c.append acc])]) scope
    refine Below.bind (hchain.trans ?_) fun _ => .refl _
    refine (Below.refl _).bind fun v => (Below.refl _).bind fun b => ?_
    cases b with
    | true => exact happend.bind fun _ => .refl _
    | false => exact .refl _

/-- the places of the list, visited with a turn -/
def loopOn (m : Machine) (scope : Nat) (turn : Exec Value) : Exec Value :=
  comprehensionPlaces m scope c.iterable c.step >>= fun p => visit scope c.var p.1 turn p.2

/-- a loop over a list visits the places that the comprehension visits -/
theorem evalFor_loopOn {m : Machine} {scope : Nat} {w : World}
    (hl : ∀ v u, m.exec c.iterable scope w = .ok v u → ∃ cell, v = .list cell) (body : List Node) :
    evalFor m scope c.var c.iterable (some c.step) body w =
      c.loopOn m scope (runBlock m scope .null body) w := by
  unfold evalFor loopOn comprehensionPlaces
  simp only [bind_assoc]
  rw [bind_run, bind_run]
  cases hv : m.exec c.iterable scope w with
  | error s u => rfl
  | ok v u =>
    obtain ⟨cell, rfl⟩ := hl v u hv
    dsimp only
    rw [bind_run, bind_run]
    cases m.exec c.step scope u with
    | error s u' => rfl
    | ok step u' =>
      show (stepPlaces (u'.list cell).size step >>= fun places => forPlaces m scope c.var (.list cell) body places) u' =
        (stepPlaces (u'.list cell).size step >>= fun places =>
          visit scope c.var (.list cell) (runBlock m scope .null body) places) u'
      simp only [forPlaces_visit]

/-! ## the value that is appended -/

section
variable {c} {scope cell n : Nat} {acc : String} {w : World}

theorem evalCallee_append (hw : (w.scope scope).find? acc = some (.list cell)) :
    evalCallee (machine (n + 1)) scope (.getAttr (.var acc) "append") w = .ok (.listMethod .append cell) w := by
  have hvar : (machine (n + 1)).exec (.var acc) scope w = .ok (.list cell) w := by
    show lookup scope acc w = _
    simp only [lookup, bind_run, get_run, hw, pure_run]
  rw [evalCallee, bind_run, hvar]
  rfl

theorem Proper.value_closed (hc : c.Proper) : c.value.Closed := by
  have hall := (Node.closed_iff rfl).mp hc.closed
  exact hall _ (by simp [node, Node.children, Node.inner])

theorem Proper.not_quoted (hc : c.Proper) (v : Value) : c.value ≠ .quoted v := by
  intro he
  have hclosed := hc.value_closed
  rw [he] at hclosed
  cases hclosed

theorem Proper.passed_eq (hc : c.Proper) : c.passed = .positional c.value := by
  unfold passed
  split
  · rename_i name e he
    exact absurd he (hc.assign name e)
  · rfl

/-- where the name is bound to the list, the call appends as the comprehension does -/
theorem append_run (hc : c.Proper) (hw : (w.scope scope).find? acc = some (.list cell)) :
    c.appendOn (machine (n + 1)) scope acc w =
      (collectValue (machine (n + 1)) scope c.value cell >>= fun _ => pure .null) w := by
  have happend (v : Value) : callListMethod .append cell [v] = modifyList cell (·.push v) >>= fun _ => pure .null := rfl
  unfold appendOn evalCall applyCall collectValue
  rw [bind_assoc, bind_run, evalCallee_append hw, hc.passed_eq]
  dsimp only [Parse.positionals]
  rw [evalArguments_value hc.unpack hc.keywordUnpack hc.not_quoted]
  show ((((machine (n + 1)).exec c.value scope >>= fun v => pure (⟨[v], .empty⟩ : Arguments)) >>= fun a =>
      callListMethod .append cell (a.positional ++ a.keywords.values)) >>=
        afterStatement (machine (n + 1)) scope []) w = _
  simp only [bind_assoc, pure_bind]
  show ((machine (n + 1)).exec c.value scope >>= fun v => callListMethod .append cell [v] >>=
    afterStatement (machine (n + 1)) scope []) w = _
  simp only [happend, bind_assoc, pure_bind]
  rfl

end

end Comprehension

/-! ## names that are not used -/

/-- does the rule of a tree look up or bind a name by itself? -/
def mentions (name : String) (scope : Nat) (w : World) (t : Node) : Bool :=
  ((t.lookups scope w.globals).any fun p => p.2 == name) || t.bound.contains name

/-- executing the tree never comes to a tree that mentions the name: a machine that stops there does not stop,
whatever the state that it would leave -/
def Unused (name : String) (node : Node) (scope : Nat) (w : World) : Prop :=
  ∀ n u, (guarded (mentions name) u n).exec node scope w = (machine n).exec node scope w

/-- a guarded machine stops, or its outcome is that of the machine -/
theorem guarded_below (p : Nat → World → Node → Bool) (u : World) (n : Nat) :
    (guarded p u n).Coupled belowCoupling (machine n) := by
  induction n with
  | zero => exact ⟨fun _ _ => .refl _, fun _ _ => .refl _, Or.inl rfl⟩
  | succ n ih =>
    refine ⟨fun {node l} _ s => ?_, fun f args => belowCoupling_total.callValue_coupled ih f args, Or.inl rfl⟩
    rw [machine_exec, execNode_byRule]
    refine belowCoupling_total.toLoose.byRule_coupled (fun t w => ?_) node
    split
    · exact Or.inr ⟨u, rfl⟩
    · exact belowCoupling_total.execPlain_coupled ih s l t w

/-! ## the states that both start from -/

namespace World

/-- the state in which a comprehension evaluates its iterable: it holds its list -/
def collecting (w : World) : World :=
  { w with lists := w.lists.push #[], active := .list w.lists.size :: w.active }

/-- the state in which the loop evaluates it: a name is bound to the list -/
def holding (w : World) (scope : Nat) (name : String) : World :=
  { w with
    lists := w.lists.push #[]
    scopes := w.scopes.modify scope (·.insert name (.list w.lists.size)) }

/-- the scope is that of the global variables or of a call that has not ended -/
structure Current (w : World) (scope : Nat) : Prop where
  lt : scope < w.scopes.size
  held : scope = w.globals ∨ .scope scope ∈ w.active

theorem find?_holding {w : World} {scope : Nat} (hs : scope < w.scopes.size) (name : String) :
    ((w.holding scope name).scope scope).find? name = some (.list w.lists.size) := by
  have hscope : (w.holding scope name).scope scope = (w.scope scope).insert name (.list w.lists.size) :=
    w.scope_modifyScope_self hs _
  rw [hscope, Scope.find?_insert, if_pos rfl]

end World

section
variable {w : World} {scope : Nat} {acc : String}

/-- the comprehension holds its list, and the loop has it in a variable -/
abbrev gatherBond (w : World) (scope : Nat) (acc : String) (stop : World) : Bond :=
  .twin w.collecting (w.holding scope acc) (· = acc) (· = acc) (· = stop) scope (.list w.lists.size :: w.active)
    w.active

theorem straight_gatherBond (w : World) (scope : Nat) (acc : String) (stop : World) :
    (gatherBond w scope acc stop).Straight := Bond.straight_twin _ _ _ _ _ _ _ _

theorem sound_gatherBond (hs : w.Current scope) (hf : (w.scope scope).find? acc = none) (stop : World) :
    (gatherBond w scope acc stop).Sound := by
  have hB := straight_gatherBond w scope acc stop
  have hown' : (gatherBond w scope acc stop).own' acc = some (.list w.lists.size) := World.find?_holding hs.lt acc
  exact
    { emptyTuple := hB.tuples.mpr rfl
      globals := hB.scopes.mpr rfl
      arguments := hB.lists.mpr rfl
      frozen := False.elim
      frozen' := False.elim
      next := fun h => h.elim
      next' := fun h => h.elim
      own := fun {name v c} hn hv _ => by
        have hnone : (gatherBond w scope acc stop).own acc = none := hf
        rw [hn, hnone] at hv
        cases hv
      own' := fun {name v c} hn hv hc => by
        rw [hn, hown'] at hv
        cases hv
        cases hc
        exact Or.inr (Or.inr (Or.inr ⟨_, List.mem_cons_self, hB.same _⟩))
      base := fun {c} hc => by
        refine ⟨c, ?_, hB.same c⟩
        rcases List.mem_cons.mp hc with rfl | hc
        · exact Or.inr ⟨acc, _, rfl, hown', rfl⟩
        · exact Or.inl hc
      base' := fun {c} hc => ⟨c, List.mem_cons_of_mem _ hc, hB.same c⟩
      pinned := fun _ => ⟨hs.lt, hs.held⟩ }

/-- the scope in which the name of the list is bound -/
theorem vars_gatherBond (hf : (w.scope scope).find? acc = none) (hs : scope < w.scopes.size) (stop : World)
    (hd : (w.scope scope).Distinct) : (gatherBond w scope acc stop).Vars (w.scope scope)
      ((w.scope scope).insert acc (.list w.lists.size)) where
  distinct := hd
  distinct' := hd.insert _ _
  find name := by
    rw [Scope.find?_insert]
    split
    · rename_i he
      subst he
      exact Or.inr ⟨rfl, rfl, (World.find?_holding hs name).symm⟩
    · exact Or.inl ((straight_gatherBond w scope acc stop).option.mpr rfl)
  unnamed := by
    rw [Scope.unnamed_insert]
    exact (straight_gatherBond w scope acc stop).option.mpr rfl

theorem match_gatherBond (hw : w.Tidy) (hs : w.Current scope) (hf : (w.scope scope).find? acc = none)
    (stop : World) : (gatherBond w scope acc stop).Match w.collecting (w.holding scope acc) := by
  have hB := straight_gatherBond w scope acc stop
  have htidy : w.collecting.Tidy := ⟨hw.emptyTuple, hw.functions, hw.callables, hw.scopes⟩
  refine htidy.twin rfl (sound_gatherBond hs hf stop) (.begin_ident Array.size_modify fun i => ?_)
    ⟨[], [], .nil, rfl, rfl⟩
  show Option.Rel _ w.scopes[i]? (w.scopes.modify scope _)[i]?
  rw [Array.getElem?_modify]
  split
  · rename_i he
    subst he
    have hscope : w.scopes[scope]? = some (w.scope scope) := by
      rw [World.scope, Array.getD_eq_getD_getElem?, Array.getElem?_eq_getElem hs.lt]
      rfl
    rw [hscope]
    exact .some (vars_gatherBond hf hs.lt stop (hw.scopes (Array.mem_of_getElem? hscope)))
  · cases hi : w.scopes[i]? with
    | none => exact .none
    | some s => exact .some (hB.vars_self (hw.scopes (Array.mem_of_getElem? hi)))

/-- a tree that does not mention the name neither looks it up nor binds it -/
theorem clear_gatherBond {stop v : World} {s : Nat} {t : Node} (h : mentions acc s v t = false) :
    (gatherBond w scope acc stop).Clear s v t := by
  rw [mentions, Bool.or_eq_false_iff, List.any_eq_false] at h
  constructor
  · rintro p hp ⟨hn, -⟩
    exact h.1 p hp (beq_iff_eq.mpr hn)
  · rintro name hn rfl
    rw [List.contains_iff_mem.mpr hn] at h
    exact absurd h.2 Bool.noConfusion

end

/-! ## places -/

def Steers {α : Type} (r : EStateM.Result Signal World α) : Prop :=
  ∃ s u, r = .error s u ∧ (s = .breakLoop ∨ s = .continueLoop)

theorem steers_bind {α β : Type} {x : Exec α} {w u : World} {a : α} (h : x w = .ok a u) (f : α → Exec β) :
    Steers ((x >>= f) w) ↔ Steers (f a u) := by
  rw [bind_run, h]

namespace Bond

variable {B : Bond} {α : Type} {w' : World}

theorem loopTurn_outcome {r : EStateM.Result Signal World α} {y : Exec Value} {R : α → Value → Prop}
    (h : B.Outcome R r (y w')) (hs : ¬ Steers r) : B.Outcome (fun _ b => b = true) r (loopTurn y w') := by
  unfold loopTurn
  rw [bind_run, get_run]
  dsimp only
  rw [tryCatch_run, bind_run]
  revert h
  generalize y w' = r'
  intro h
  cases h with
  | ok _ hw => exact .ok rfl hw
  | error he hw =>
    cases he with
    | fault hf => exact .error (.fault hf) hw
    | breakLoop => exact absurd ⟨_, _, rfl, Or.inl rfl⟩ hs
    | continueLoop => exact absurd ⟨_, _, rfl, Or.inr rfl⟩ hs
    | exhausted => exact .error .exhausted hw
  | stop hu => exact .stop hu _

end Bond

/-- the loop gives nothing -/
abbrev NoValue (_ : Unit) (v : Value) : Prop := v = .null

namespace Comprehension

variable {c : Comprehension} {w stop : World} {scope : Nat} {acc : String} {m : Machine} {n : Nat}

/-- add the value for the item that is bound, if it passes -/
def turn (c : Comprehension) (m : Machine) (scope values : Nat) : Exec Unit := do
  if ← passes m scope c.condition.toList then collectValue m scope c.value values

theorem collectPlaces_turn (v : Value) (values : Nat) (i : Int) (rest : List Int) :
    collectPlaces m scope c.value c.var v c.condition.toList values (i :: rest) =
      (element v (.int i) >>= fun item => bindName scope c.var item) >>= fun _ =>
        c.turn m scope values >>= fun _ =>
          collectPlaces m scope c.value c.var v c.condition.toList values rest := by
  rw [collectPlaces, turn]
  simp only [bind_assoc]
  congr 1
  funext item
  congr 1
  funext _
  congr 1
  funext b
  cases b with
  | true => rfl
  | false => rfl

/-- the trees of a comprehension stand for themselves -/
theorem Proper.shape (hc : c.Proper) (B : Bond) : B.Tree c.value c.value ∧ B.Tree c.iterable c.iterable ∧
    B.Tree c.step c.step ∧ B.Trees c.condition.toList c.condition.toList := by
  have hshape : B.Shape c.node c.node := .closed hc.closed rfl
  cases hshape with
  | listComp _ hb hi hs hcs => exact ⟨hb, hi, hs, hcs⟩

section
variable (hc : c.Proper) (hs : scope < w.scopes.size) (hm : (gatherBond w scope acc stop).Machines m (machine (n + 1)))
include hc hs hm

theorem sim_append : (gatherBond w scope acc stop).Sim NoValue (collectValue m scope c.value w.lists.size)
    (c.appendOn (machine (n + 1)) scope acc) := by
  have hB := straight_gatherBond w scope acc stop
  intro v v' hv
  have hacc : (v'.scope scope).find? acc = some (.list w.lists.size) :=
    (hv.pinned rfl).trans (World.find?_holding hs acc)
  have hcollect := Bond.sim_collectValue hm (hB.scopes.mpr (Eq.refl scope)) (hc.shape _).1
    (hB.lists.mpr (Eq.refl w.lists.size))
  have hnull : (gatherBond w scope acc stop).Sim NoValue (collectValue m scope c.value w.lists.size >>= pure)
      (collectValue (machine (n + 1)) scope c.value w.lists.size >>= fun _ => pure .null) :=
    Bond.sim_then hcollect fun _ => Bond.sim_pure rfl
  rw [bind_pure] at hnull
  rw [append_run hc hacc]
  exact hnull v v' hv

/-- the body of the loop does what the comprehension does for an item -/
theorem sim_turn : (gatherBond w scope acc stop).Sim NoValue (c.turn m scope w.lists.size)
    (c.bodyOn (machine (n + 1)) scope acc) := by
  have hB := straight_gatherBond w scope acc stop
  have happend := sim_append hc hs hm
  have htrees := (hc.shape (gatherBond w scope acc stop)).2.2.2
  unfold turn bodyOn
  cases hcond : c.condition with
  | none => exact happend
  | some t =>
    rw [hcond] at htrees
    cases htrees with
    | cons ht _ =>
      have hbranch : (gatherBond w scope acc stop).Sim NoValue
          ((m.exec t scope >>= fun v => Exec.truth v >>= fun b =>
            if b then collectValue m scope c.value w.lists.size else pure ()) >>= pure)
          (((machine (n + 1)).exec t scope >>= fun v => Exec.truth v >>= fun b =>
            if b then c.appendOn (machine (n + 1)) scope acc else pure .null) >>=
              afterStatement (machine (n + 1)) scope []) := by
        refine Bond.sim_bind (R := NoValue) ?_ fun {_ v} hv => ?_
        · refine Bond.sim_bind (hm.tree ht (hB.scopes.mpr rfl)) fun hv => Bond.sim_then (Bond.sim_truth hv) fun b => ?_
          exact Bond.sim_ite happend (Bond.sim_pure rfl)
        · rw [hv]
          exact Bond.sim_pure rfl
      rw [bind_pure] at hbranch
      show (gatherBond w scope acc stop).Sim NoValue ((m.exec t scope >>= fun v => Exec.truth v) >>= fun b =>
        if b then collectValue m scope c.value w.lists.size else pure ()) _
      rw [bind_assoc]
      exact hbranch

/-- **The places are visited alike** by the comprehension and by the loop. -/
theorem places_outcome (hx : c.var ≠ acc) {v : Value} (places : List Int) {u u' : World}
    (hu : (gatherBond w scope acc stop).Match u u')
    (hn : ¬ Steers (collectPlaces m scope c.value c.var v c.condition.toList w.lists.size places u)) :
    (gatherBond w scope acc stop).Outcome NoValue
      (collectPlaces m scope c.value c.var v c.condition.toList w.lists.size places u)
      (visit scope c.var v (c.bodyOn (machine (n + 1)) scope acc) places u') := by
  have hB := straight_gatherBond w scope acc stop
  induction places generalizing u u' with
  | nil => exact .ok rfl hu
  | cons i places ih =>
    have hitem : (gatherBond w scope acc stop).Sim Eq
        (element v (.int i) >>= fun item => bindName scope c.var item)
        (element v (.int i) >>= fun item => bindName scope c.var item) :=
      Bond.sim_bind (Bond.sim_element (hB.val.mpr rfl) (.int i)) fun h =>
        Bond.sim_bindName (hB.scopes.mpr rfl) hx h
    have hvisit : visit scope c.var v (c.bodyOn (machine (n + 1)) scope acc) (i :: places) =
        (element v (.int i) >>= fun item => bindName scope c.var item) >>= fun _ =>
          loopTurn (c.bodyOn (machine (n + 1)) scope acc) >>= fun b =>
            if b then visit scope c.var v (c.bodyOn (machine (n + 1)) scope acc) places else pure .null := by
      rw [visit, bind_assoc]
    rw [collectPlaces_turn] at hn ⊢
    rw [hvisit]
    refine (hitem u u' hu).bind_of_run fun {_ _ u₁ u₁'} hrun _ hu₁ => ?_
    rw [steers_bind hrun] at hn
    have hturn : ¬ Steers (c.turn m scope w.lists.size u₁) := by
      rintro ⟨s, u₂, he, hsteer⟩
      exact hn ⟨s, u₂, by rw [bind_run, he], hsteer⟩
    refine (Bond.loopTurn_outcome (sim_turn hc hs hm _ _ hu₁) hturn).bind_of_run fun {_ b u₂ u₂'} hrun₁ hb hu₂ => ?_
    rw [hb]
    exact ih hu₂ ((steers_bind hrun₁ _).not.mp hn)

end

end Comprehension

end BraceScript
