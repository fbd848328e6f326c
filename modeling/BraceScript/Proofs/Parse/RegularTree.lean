import BraceScript.Proofs.Exec.Law

/-!
# Regular trees

A quoted value stands for a tree only when the default of a field is made: no program text is read as one.
A return is read as a statement of a block, and the block executes only the tree in it. So no tree that a
program executes is a quoted value or a return.

* `Node.Regular`      the trees that a tree executes are neither quoted values nor returns
* `Subscript.trees`, `Argument.tree`, `Member.trees`   the trees of what is read on the way to a tree
-/

namespace BraceScript

namespace Node

/-- is a tree neither a quoted value nor a return? -/
def standsAlone : Node → Bool
  | .quoted _ | .ret _ => false
  | _ => true

/-- the trees that a tree executes -/
def parts (node : Node) : List Node := node.innerSteps ++ (node.turnSteps ++ node.unitSteps)

/-- a tree and the trees that it executes are neither quoted values nor returns -/
inductive Regular : Node → Prop
  | mk {node : Node} (here : node.standsAlone = true) (parts : ∀ t ∈ node.parts, Regular t) : Regular node

theorem Regular.here {node : Node} (h : node.Regular) : node.standsAlone = true := by
  cases h with
  | mk here _ => exact here

theorem Regular.parts {node t : Node} (h : node.Regular) (ht : t ∈ node.parts) : t.Regular := by
  cases h with
  | mk _ hp => exact hp t ht

/-- a tree that has no loop and no unit of its own -/
theorem Regular.of_inner {node : Node} (here : node.standsAlone = true)
    (hp : node.parts = node.innerSteps) (hi : ∀ t ∈ node.innerSteps, t.Regular) : node.Regular :=
  .mk here (hp ▸ hi)

/-- a block executes a statement that is no return -/
theorem Regular.step {statement : Node} (h : statement.Regular) : ∀ t ∈ statement.step, t.Regular := by
  have hs := h.here
  cases statement with
  | ret value => cases hs
  | _ => exact List.forall_mem_singleton.mpr h

end Node

namespace Parse

/-! ## parts of trees -/

def Subscript.trees : Subscript → List Node
  | .element index => [index]
  | .range start stop step => start.toList ++ stop.toList ++ step.toList

def Argument.tree : Argument → Node
  | .positional value => value
  | .named _ value => value

def Member.trees : Member → List Node
  | .field _ value => value.toList
  | .method m => m.steps
  | .nested c => (Node.classDef c).unitSteps

theorem mem_putNamed {name : String} {value : Node} {acc : List (String × Node)} {p : String × Node}
    (h : p ∈ putNamed name value acc) : p.2 = value ∨ p ∈ acc := by
  induction acc with
  | nil =>
    rw [putNamed, List.mem_singleton] at h
    exact Or.inl (by rw [h])
  | cons q acc ih =>
    rw [putNamed] at h
    split at h
    · rcases List.mem_cons.mp h with rfl | h
      · exact Or.inl rfl
      · exact Or.inr (List.mem_cons_of_mem _ h)
    · rcases List.mem_cons.mp h with rfl | h
      · exact Or.inr List.mem_cons_self
      · exact (ih h).imp id (List.mem_cons_of_mem _)

theorem mem_positionals {items : List Argument} {t : Node} (h : t ∈ positionals items) :
    t ∈ items.map Argument.tree := by
  induction items with
  | nil => cases h
  | cons a items ih =>
    cases a with
    | positional v => exact (List.mem_cons.mp h).elim (· ▸ List.mem_cons_self) fun h =>
        List.mem_cons_of_mem _ (ih h)
    | named k v => exact List.mem_cons_of_mem _ (ih h)

theorem mem_nameds {items : List Argument} {acc : List (String × Node)} {p : String × Node}
    (h : p ∈ nameds acc items) : p.2 ∈ items.map Argument.tree ∨ p ∈ acc := by
  induction items generalizing acc with
  | nil => exact Or.inr h
  | cons a items ih =>
    cases a with
    | positional v => exact (ih h).imp (List.mem_cons_of_mem _) id
    | named k v =>
      rcases ih h with h | h
      · exact Or.inl (List.mem_cons_of_mem _ h)
      · exact (mem_putNamed h).imp (fun e => List.mem_cons.mpr (Or.inl e)) id

/-- the trees that a class executes are those of its members -/
theorem mem_classUnits {name : String} {ps : List String} {members : List Member} {t : Node}
    (h : t ∈ (Node.classDef (.mk name ps (fieldsOf members) (methodsOf members)
      (nestedOf members))).unitSteps) : t ∈ members.flatMap Member.trees := by
  rw [Node.unitSteps, ClassDecl.classes, List.flatMap_cons] at h
  simp only [ClassDecl.defaults, ClassDecl.methods] at h
  induction members with
  | nil => simp [fieldsOf, methodsOf, nestedOf, fieldDefaults, classesIn] at h
  | cons a members ih =>
    rw [List.flatMap_cons, List.mem_append]
    cases a with
    | field x value =>
      simp only [fieldsOf, methodsOf, nestedOf, fieldDefaults_cons, List.append_assoc,
        List.mem_append] at h ih
      exact h.imp id ih
    | method m =>
      simp only [fieldsOf, methodsOf, nestedOf, List.flatMap_cons, List.append_assoc,
        List.mem_append] at h ih
      rcases h with h | h | h | h
      · exact Or.inr (ih (Or.inl h))
      · exact Or.inl h
      · exact Or.inr (ih (Or.inr (Or.inl h)))
      · exact Or.inr (ih (Or.inr (Or.inr h)))
    | nested c =>
      simp only [fieldsOf, methodsOf, nestedOf, classesIn, List.flatMap_append, List.append_assoc,
        List.mem_append] at h ih
      rcases h with h | h | h | h
      · exact Or.inr (ih (Or.inl h))
      · exact Or.inr (ih (Or.inr (Or.inl h)))
      · exact Or.inl h
      · exact Or.inr (ih (Or.inr (Or.inr h)))

end Parse

end BraceScript
