import BraceScript.Proofs.Exec.Quiet

/-!
# Laws for the trees of a program

A law says which trees a program may execute, outside of loops and in the body of one; it passes to the
trees that a tree executes. The body of a function, the defaults of its parameters and the defaults of
fields are units of their own: whatever is around them, they do not stand in a loop. A state keeps the
units of the functions and classes that were made, and evaluations that make no others keep the law.

A block does not execute a return by itself: it ends with the value of the tree in the return.

* `Node.inner`, `Node.turns`, `Node.units`   the trees in a tree, by where they stand
* `blockSteps`, `Node.innerSteps`, ...       those that are executed
* `Law`, `Node.Obeys`   a law, and a tree that obeys it
* `World.Obeys`         all code that a state keeps obeys a law
* `Exec.Lawful`         an evaluation that leaves scopes alone and keeps a law
-/

namespace BraceScript

/-! ## the trees in a tree -/

/-- the default of a parameter -/
def Param.tree? {α : Type} : Param α → Option α
  | .plain _ e => e
  | _ => none

def paramDefaults (ps : List (Param Node)) : List Node := ps.filterMap Param.tree?

theorem paramDefaults_cons (q : Param Node) (ps : List (Param Node)) :
    paramDefaults (q :: ps) = q.tree?.toList ++ paramDefaults ps := by
  rw [paramDefaults, List.filterMap_cons]
  cases q.tree? <;> rfl

/-- the body of a function and the defaults of its parameters -/
def Method.code (f : Method Node) : List Node := f.body ++ paramDefaults f.params

def fieldDefaults (fields : List (String × Option Node)) : List Node := fields.filterMap Prod.snd

theorem fieldDefaults_cons (name : String) (value : Option Node)
    (fields : List (String × Option Node)) :
    fieldDefaults ((name, value) :: fields) = value.toList ++ fieldDefaults fields := by
  rw [fieldDefaults, List.filterMap_cons]
  cases value <;> rfl

def ClassDecl.defaults : ClassDecl Node → List Node
  | .mk _ _ fields _ _ => fieldDefaults fields

def ClassDecl.methods {α : Type} : ClassDecl α → List (Method α)
  | .mk _ _ _ methods _ => methods

mutual

def ClassDecl.classes {α : Type} : ClassDecl α → List (ClassDecl α)
  | .mk name parents fields methods nested => .mk name parents fields methods nested :: classesIn nested

def classesIn {α : Type} : List (ClassDecl α) → List (ClassDecl α)
  | [] => []
  | c :: cs => c.classes ++ classesIn cs

end

namespace Node

/-- the trees in a tree that belong to the same unit and stand in the same loops -/
def inner : Node → List Node
  | .num _ | .str _ | .var _ | .breakLoop | .continueLoop | .global _ | .classDef _ | .define _
  | .lambda _ _ | .embedded _ | .includeFile _ | .quoted _ => []
  | .list items => items
  | .listComp body _ iterable step conditions => body :: iterable :: step :: conditions
  | .dict items => items.flatMap fun p => [p.1, p.2]
  | .dictComp key value _ iterable condition => key :: value :: iterable :: condition.toList
  | .assign _ value => [value]
  | .augAssign _ _ value => [value]
  | .augAttr object _ _ value => [object, value]
  | .augIndex object i _ value => [object, i, value]
  | .setIndex object i value => [object, i, value]
  | .setAttr object _ value => [object, value]
  | .binop _ left right | .compare _ left right | .inside left right | .outside left right
  | .and left right | .or left right => [left, right]
  | .danglingOutside e | .not e | .neg e | .throw e | .unpack e | .keywordUnpack e => [e]
  | .ternary condition yes no => [condition, yes, no]
  | .call callee args keywords => callee :: (args ++ keywords.map Prod.snd)
  | .getAttr object _ => [object]
  | .getItem object i | .index object i => [object, i]
  | .slice object start stop step => object :: (start.toList ++ stop.toList ++ step.toList)
  | .block body => body
  | .ifChain branches => branches.flatMap fun b => b.1.toList ++ b.2
  | .forEach _ iterable step _ => iterable :: step.toList
  | .whileLoop condition _ => [condition]
  | .ret value => value.toList
  | .tryCatch _ body handler => body ++ handler
  | .matchCase subject cases => subject :: cases.flatMap fun c => c.1 ++ c.2

/-- the body of a loop -/
def turns : Node → List Node
  | .forEach _ _ _ body => body
  | .whileLoop _ body => body
  | _ => []

def units : Node → List Node
  | .classDef c => c.classes.flatMap fun d => d.defaults ++ d.methods.flatMap Method.code
  | .define f => f.code
  | .lambda params body => body ++ paramDefaults params
  | _ => []

/-- the trees that a statement of a block executes: a return gives the value of the tree in it -/
def step : Node → List Node
  | .ret value => value.toList
  | statement => [statement]

/-- is a tree an access to an attribute? -/
def isGetAttr : Node → Bool
  | .getAttr _ _ => true
  | _ => false

end Node

/-! ## the trees that are executed -/

def blockSteps (body : List Node) : List Node := body.flatMap Node.step

theorem blockSteps_cons (statement : Node) (rest : List Node) :
    blockSteps (statement :: rest) = statement.step ++ blockSteps rest := List.flatMap_cons

/-- the trees that a call of a function executes -/
def Method.steps (f : Method Node) : List Node := blockSteps f.body ++ paramDefaults f.params

/-- the trees that a call of a function executes -/
def Closure.steps (c : Closure) : List Node := blockSteps c.body ++ paramDefaults c.params

namespace Node

/-- the trees that a tree executes in the same unit and in the same loops -/
def innerSteps : Node → List Node
  | .block body => blockSteps body
  | .ifChain branches => branches.flatMap fun b => b.1.toList ++ blockSteps b.2
  | .tryCatch _ body handler => blockSteps body ++ blockSteps handler
  | .matchCase subject cases => subject :: cases.flatMap fun c => c.1 ++ blockSteps c.2
  | node => node.inner

def turnSteps (node : Node) : List Node := blockSteps node.turns

def unitSteps : Node → List Node
  | .classDef c => c.classes.flatMap fun d => d.defaults ++ d.methods.flatMap Method.steps
  | .define f => f.steps
  | .lambda params body => blockSteps body ++ paramDefaults params
  | _ => []

end Node

/-! What all trees in a tree have, and a return passes to the tree in it, all trees that are executed have. -/

section
variable {P : Node → Prop} (hr : ∀ value, P (.ret value) → ∀ t ∈ value.toList, P t)
include hr

theorem forall_blockSteps {body : List Node} (h : ∀ t ∈ body, P t) : ∀ t ∈ blockSteps body, P t := by
  refine List.forall_mem_flatMap.mpr fun s hs => ?_
  cases s with
  | ret value => exact hr value (h _ hs)
  | _ => exact List.forall_mem_singleton.mpr (h _ hs)

theorem Method.forall_steps {f : Method Node} (h : ∀ t ∈ f.code, P t) : ∀ t ∈ f.steps, P t := by
  rw [Method.code, List.forall_mem_append] at h
  exact List.forall_mem_append.mpr ⟨forall_blockSteps hr h.1, h.2⟩

namespace Node

variable {node : Node}

theorem forall_innerSteps (h : ∀ t ∈ node.inner, P t) : ∀ t ∈ node.innerSteps, P t := by
  cases node with
  | block body => exact forall_blockSteps hr h
  | ifChain branches =>
    refine List.forall_mem_flatMap.mpr fun b hb => ?_
    have hp := List.forall_mem_append.mp (List.forall_mem_flatMap.mp h b hb)
    exact List.forall_mem_append.mpr ⟨hp.1, forall_blockSteps hr hp.2⟩
  | tryCatch name body handler =>
    have hp := List.forall_mem_append.mp h
    exact List.forall_mem_append.mpr ⟨forall_blockSteps hr hp.1, forall_blockSteps hr hp.2⟩
  | matchCase subject cases =>
    have hp := List.forall_mem_cons.mp h
    refine List.forall_mem_cons.mpr ⟨hp.1, List.forall_mem_flatMap.mpr fun c hc => ?_⟩
    have hq := List.forall_mem_append.mp (List.forall_mem_flatMap.mp hp.2 c hc)
    exact List.forall_mem_append.mpr ⟨hq.1, forall_blockSteps hr hq.2⟩
  | _ => exact h

theorem forall_turnSteps (h : ∀ t ∈ node.turns, P t) : ∀ t ∈ node.turnSteps, P t :=
  forall_blockSteps hr h

theorem forall_unitSteps (h : ∀ t ∈ node.units, P t) : ∀ t ∈ node.unitSteps, P t := by
  cases node with
  | classDef c =>
    refine List.forall_mem_flatMap.mpr fun d hd => ?_
    have hp := List.forall_mem_append.mp (List.forall_mem_flatMap.mp h d hd)
    refine List.forall_mem_append.mpr ⟨hp.1, List.forall_mem_flatMap.mpr fun f hf => ?_⟩
    exact Method.forall_steps hr (List.forall_mem_flatMap.mp hp.2 f hf)
  | define f => exact Method.forall_steps hr h
  | lambda params body =>
    have hp := List.forall_mem_append.mp h
    exact List.forall_mem_append.mpr ⟨forall_blockSteps hr hp.1, hp.2⟩
  | _ => exact h

end Node

end

/-! ## laws -/

/-- a law for trees, which passes to the trees that a tree executes; the flag says whether the tree stands
in a loop of its unit -/
structure Law where
  Holds : Bool → Node → Prop
  inner {l : Bool} {node t : Node} : Holds l node → t ∈ node.innerSteps → Holds l t
  turns {l : Bool} {node t : Node} : Holds l node → t ∈ node.turnSteps → Holds true t
  units {l : Bool} {node t : Node} : Holds l node → t ∈ node.unitSteps → Holds false t
  /-- the tree that an access to an attribute makes, as the default of a field, can be any tree -/
  access {l : Bool} {c : ClassDecl Node} {e : Node} : Holds l (.classDef c) → e ∈ c.defaults →
    e.isGetAttr = true → ∀ l t, Holds l t

def Law.NoReturn (L : Law) : Prop := ∀ l value, ¬ L.Holds l (.ret value)

def Law.free : Law := ⟨fun _ _ => True, fun _ _ => trivial, fun _ _ => trivial, fun _ _ => trivial,
  fun _ _ _ _ _ => trivial⟩

def Node.Obeys (node : Node) (L : Law) (l : Bool) : Prop := L.Holds l node

variable {L : Law}

namespace Node.Obeys

variable {l : Bool} {node t : Node}

theorem inner (h : node.Obeys L l) (ht : t ∈ node.innerSteps) : t.Obeys L l := L.inner h ht

/-- the two trees that a tree executes -/
theorem both {a b : Node} (h : node.Obeys L l) (hi : node.innerSteps = [a, b]) : a.Obeys L l ∧ b.Obeys L l :=
  ⟨h.inner (by simp [hi]), h.inner (by simp [hi])⟩

theorem three {a b c : Node} (h : node.Obeys L l) (hi : node.innerSteps = [a, b, c]) :
    a.Obeys L l ∧ b.Obeys L l ∧ c.Obeys L l :=
  ⟨h.inner (by simp [hi]), h.inner (by simp [hi]), h.inner (by simp [hi])⟩

theorem turns (h : node.Obeys L l) (ht : t ∈ node.turnSteps) : t.Obeys L true := L.turns h ht

theorem units (h : node.Obeys L l) (ht : t ∈ node.unitSteps) : t.Obeys L false := L.units h ht

theorem methods {c : ClassDecl Node} (h : (Node.classDef c).Obeys L l) :
    ∀ d ∈ c.classes, ∀ m ∈ d.methods, ∀ t ∈ m.steps, t.Obeys L false := by
  intro d hd m hm t ht
  refine h.units (List.mem_flatMap.mpr ⟨d, hd, List.mem_append_right _ ?_⟩)
  exact List.mem_flatMap.mpr ⟨m, hm, ht⟩

end Node.Obeys

/-- the default of a field obeys a law, and so does the tree that it makes -/
structure FieldDefault (L : Law) (e : Node) : Prop where
  tree : e.Obeys L false
  access : e.isGetAttr = true → ∀ l t, Node.Obeys t L l

/-! ## the code that a state keeps -/

/-- what is called obeys a law: the defaults of a constructor's fields do -/
def Callable.Obeys (L : Law) : Callable → Prop
  | .constructor _ fields _ _ => ∀ e ∈ fieldDefaults fields, FieldDefault L e
  | _ => True

theorem Callable.obeys_of_not_constructor {c : Callable} (h : c.isConstructor = false) :
    c.Obeys L := by
  cases c with
  | constructor => cases h
  | _ => trivial

theorem ClassDecl.mem_classes {α : Type} (c : ClassDecl α) : c ∈ c.classes := by
  cases c
  rw [ClassDecl.classes]
  exact List.mem_cons_self

theorem constructorOf_obeys {l : Bool} {c : ClassDecl Node}
    (h : (Node.classDef c).Obeys L l) (included : Bool) : (constructorOf included c).Obeys L := by
  have hd : ∀ e ∈ c.defaults, FieldDefault L e := fun e he =>
    ⟨h.units (List.mem_flatMap.mpr ⟨c, c.mem_classes, List.mem_append_left _ he⟩), L.access h he⟩
  cases c
  exact hd

/-- all code that a state keeps obeys a law; under a law without returns, no tuple is marked as one -/
structure World.Obeys (L : Law) (w : World) : Prop where
  functions (cell : Nat) : ∀ t ∈ (w.function cell).steps, t.Obeys L false
  callables (cell : Nat) : (w.callable cell).Obeys L
  tuples : L.NoReturn → w.Unmarked

theorem World.Obeys.of_sameCode {w w' : World} (hw : w.Obeys L) (h : SameCode w w') :
    w'.Obeys L where
  functions cell := by
    rw [World.function, h.functions, h.globals]
    exact hw.functions cell
  callables cell := by
    rcases h.callables cell with he | hn
    · rw [he]
      exact hw.callables cell
    · exact Callable.obeys_of_not_constructor hn
  tuples hL := h.tuples (hw.tuples hL)

theorem World.obeys_free (w : World) : w.Obeys .free where
  functions _ _ _ := trivial
  callables cell := by
    cases w.callable cell with
    | constructor => exact fun _ _ => ⟨trivial, fun _ _ _ => trivial⟩
    | _ => trivial
  tuples hL := absurd trivial (hL false none)

/-- a state without functions and constructors, and with empty tuples only, obeys every law -/
theorem World.obeys_of_empty {w : World} (hf : w.functions = #[]) (hc : w.callables = #[])
    (ht : w.tuples.toList.all List.isEmpty = true := by rfl) : w.Obeys L where
  functions cell := by
    rw [World.function, hf]
    exact List.forall_mem_nil _
  callables cell := by
    rw [World.callable, hc]
    exact List.forall_mem_nil _
  tuples _ cell := by
    have he : w.tuple cell = [] := by
      rw [World.tuple, Array.getD_eq_getD_getElem?, ← Array.getElem?_toList]
      cases hi : w.tuples.toList[cell]? with
      | none => rfl
      | some items => exact List.isEmpty_iff.mp (List.all_eq_true.mp ht items (List.mem_of_getElem? hi))
    rw [he, List.head?_nil]
    exact Option.some_ne_none _ ∘ Eq.symm

namespace Exec

variable {α β : Type}

/-- scopes are left alone, the code that is made obeys a law, and the end is plain -/
def lawfulManner (L : Law) : Manner where
  Rel w w' := SameScopes w w' ∧ (w.Obeys L → w'.Obeys L)
  refl w := ⟨.refl w, id⟩
  trans h h' := ⟨h.1.trans h'.1, h'.2 ∘ h.2⟩
  Ends := Signal.Plain

/-- the evaluation changes no scope, keeps a law for code, and ends with plain signals -/
def Lawful (L : Law) (x : Exec α) : Prop := Runs (lawfulManner L) x

@[simp] theorem Steady.lawful {x : Exec α} (h : Steady x) : Lawful L x :=
  fun w => ⟨⟨(h w).1.toSameScopes, fun hw => hw.of_sameCode (h w).1⟩, (h w).2⟩

theorem Lawful.quiet {x : Exec α} (h : Lawful L x) : Quiet x :=
  fun w => ⟨(h w).1.1, fun _ _ _ => trivial⟩

theorem lawful_bind {x : Exec α} {f : α → Exec β} (hx : Lawful L x) (hf : ∀ a, Lawful L (f a)) :
    Lawful L (x >>= f) := runs_bind hx hf

theorem lawful_newFunction {c : Closure} (hc : ∀ t ∈ c.steps, t.Obeys L false) :
    Lawful L (newFunction c) := by
  refine runs_modifyGet fun w => ⟨⟨rfl, rfl, .push w.functions c, .of_eq rfl⟩, fun hw =>
    ⟨fun cell => ?_, hw.callables, hw.tuples⟩⟩
  by_cases he : cell = w.functions.size
  · simpa [World.function, he] using hc
  · have hf : ({ w with functions := w.functions.push c } : World).function cell = w.function cell := by
      simp [World.function, Array.getD_eq_getD_getElem?, Array.getElem?_push, he]
    rw [hf]
    exact hw.functions cell

theorem lawful_newCallable {c : Callable} (hc : c.Obeys L) : Lawful L (newCallable c) := by
  refine runs_modifyGet fun w => ⟨⟨rfl, rfl, .of_eq rfl, .push w.callables c⟩, fun hw =>
    ⟨hw.functions, fun cell => ?_, hw.tuples⟩⟩
  by_cases he : cell = w.callables.size
  · simpa [World.callable, he] using hc
  · have hf : ({ w with callables := w.callables.push c } : World).callable cell = w.callable cell := by
      simp [World.callable, Array.getD_eq_getD_getElem?, Array.getElem?_push, he]
    rw [hf]
    exact hw.callables cell

/-- a return that is executed by itself makes a marked tuple -/
theorem lawful_newMark {l : Bool} {value : Option Node} (h : (Node.ret value).Obeys L l) (v : Value) :
    Lawful L (newTuple [.str "return", v]) :=
  runs_modifyGet fun _ => ⟨⟨rfl, rfl, .of_eq rfl rfl⟩, fun hw =>
    ⟨hw.functions, hw.callables, fun hL => absurd h (hL l value)⟩⟩

end Exec

end BraceScript
