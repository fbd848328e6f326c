import BraceScript.Proofs.Parse.Regular

/-!
# Where the words of loops stand

A program is well placed if each `break` and `continue` in it stands in the body of a loop of its own
unit, and if no default of a field is an access to an attribute, which could make such a word out of a
value. This can be computed, since the trees in a tree are smaller than the tree.

* `Node.sizeOf_inner`, `Node.sizeOf_turns`, `Node.sizeOf_units`   the trees in a tree are smaller
* `Node.everywhere`              a condition on a tree and all trees in it
* `Node.placed`, `wellPlaced`    the trees and the programs that are well placed
* `placedLaw`                   well placed trees that a text can be read as
-/

namespace BraceScript

/-! ## the trees in a tree are smaller -/

theorem sizeOf_flatMap {α : Type} [SizeOf α] {f : α → List Node} {xs : List α} {t : Node}
    (h : t ∈ xs.flatMap f) (hf : ∀ x, t ∈ f x → sizeOf t < sizeOf x) : sizeOf t < sizeOf xs := by
  obtain ⟨x, hx, ht⟩ := List.mem_flatMap.mp h
  exact Nat.lt_trans (hf x ht) (List.sizeOf_lt_of_mem hx)

theorem sizeOf_toList {o : Option Node} {t : Node} (h : t ∈ o.toList) : sizeOf t < sizeOf o := by
  cases o with
  | none => cases h
  | some e =>
    rw [Option.toList_some, List.mem_singleton] at h
    rw [h, Option.some.sizeOf_spec]
    omega

theorem sizeOf_paramDefaults {ps : List (Param Node)} {t : Node} (h : t ∈ paramDefaults ps) :
    sizeOf t < sizeOf ps := by
  obtain ⟨p, hp, ht⟩ := List.mem_filterMap.mp h
  have := List.sizeOf_lt_of_mem hp
  cases p with
  | plain name e =>
    cases ht
    simp only [Param.plain.sizeOf_spec, Option.some.sizeOf_spec] at this
    omega
  | _ => cases ht

theorem sizeOf_fieldDefaults {fields : List (String × Option Node)} {t : Node}
    (h : t ∈ fieldDefaults fields) : sizeOf t < sizeOf fields := by
  obtain ⟨p, hp, ht⟩ := List.mem_filterMap.mp h
  have := List.sizeOf_lt_of_mem hp
  obtain ⟨name, e⟩ := p
  cases ht
  simp only [Prod.mk.sizeOf_spec, Option.some.sizeOf_spec] at this
  omega

theorem Method.sizeOf_code {f : Method Node} {t : Node} (h : t ∈ f.code) : sizeOf t < sizeOf f := by
  obtain ⟨name, params, body⟩ := f
  rw [Method.mk.sizeOf_spec]
  rcases List.mem_append.mp h with h | h
  · have := List.sizeOf_lt_of_mem h
    dsimp only at this
    omega
  · have := sizeOf_paramDefaults h
    dsimp only at this
    omega

mutual

theorem ClassDecl.sizeOf_classes {c d : ClassDecl Node} (h : d ∈ c.classes) : sizeOf d ≤ sizeOf c := by
  cases c with
  | mk name parents fields methods nested =>
    rw [ClassDecl.classes] at h
    rcases List.mem_cons.mp h with rfl | h
    · exact Nat.le_refl _
    · have := sizeOf_classesIn h
      rw [ClassDecl.mk.sizeOf_spec]
      omega

theorem sizeOf_classesIn {cs : List (ClassDecl Node)} {d : ClassDecl Node} (h : d ∈ classesIn cs) :
    sizeOf d < sizeOf cs := by
  cases cs with
  | nil => cases h
  | cons c cs =>
    rw [classesIn] at h
    rw [List.cons.sizeOf_spec]
    rcases List.mem_append.mp h with h | h
    · have := ClassDecl.sizeOf_classes h
      omega
    · have := sizeOf_classesIn h
      omega

end

theorem ClassDecl.sizeOf_code {d : ClassDecl Node} {t : Node}
    (h : t ∈ d.defaults ++ d.methods.flatMap Method.code) : sizeOf t < sizeOf d := by
  obtain ⟨name, parents, fields, methods, nested⟩ := d
  rw [ClassDecl.mk.sizeOf_spec]
  rcases List.mem_append.mp h with h | h
  · have := sizeOf_fieldDefaults h
    omega
  · have := sizeOf_flatMap h fun f hf => Method.sizeOf_code hf
    dsimp only [ClassDecl.methods] at this
    omega

namespace Node

variable {node t : Node}

theorem sizeOf_inner (h : t ∈ node.inner) : sizeOf t < sizeOf node := by
  have hl : ∀ {xs : List Node}, t ∈ xs → sizeOf t < sizeOf xs := List.sizeOf_lt_of_mem
  cases node with
  | list items =>
    have := hl (show t ∈ items from h)
    rw [list.sizeOf_spec]
    omega
  | listComp body var iterable step conditions =>
    simp only [inner, List.mem_cons, listComp.sizeOf_spec] at h ⊢
    rcases h with rfl | rfl | rfl | h
    case inr.inr.inr => grind
    all_goals omega
  | dict items =>
    have := sizeOf_flatMap h fun p hp => by
      simp only [List.mem_cons, List.not_mem_nil, or_false] at hp
      cases p
      grind [Prod.mk.sizeOf_spec]
    rw [dict.sizeOf_spec]
    omega
  | call callee args keywords =>
    simp only [inner, List.mem_cons, List.mem_append, List.mem_map, call.sizeOf_spec] at h ⊢
    rcases h with rfl | h | ⟨p, hp, rfl⟩
    · omega
    · have := hl h
      omega
    · have := List.sizeOf_lt_of_mem hp
      cases p
      rw [Prod.mk.sizeOf_spec] at this
      dsimp only
      omega
  | block body =>
    have := hl (show t ∈ body from h)
    rw [block.sizeOf_spec]
    omega
  | ifChain branches =>
    have := sizeOf_flatMap h fun b hb => by
      obtain ⟨c, body⟩ := b
      rw [Prod.mk.sizeOf_spec]
      rcases List.mem_append.mp hb with hb | hb
      · have := sizeOf_toList hb
        dsimp only at this
        omega
      · have := hl hb
        dsimp only at this
        omega
    rw [ifChain.sizeOf_spec]
    omega
  | tryCatch name body handler =>
    rw [tryCatch.sizeOf_spec]
    rcases List.mem_append.mp h with h | h
    · have := hl h
      omega
    · have := hl h
      omega
  | matchCase subject cases =>
    rw [matchCase.sizeOf_spec]
    rcases List.mem_cons.mp h with rfl | h
    · omega
    · have := sizeOf_flatMap h fun c hc => by
        obtain ⟨patterns, body⟩ := c
        rw [Prod.mk.sizeOf_spec]
        rcases List.mem_append.mp hc with hc | hc
        · have := hl hc
          dsimp only at this
          omega
        · have := hl hc
          dsimp only at this
          omega
      omega
  -- the others have a fixed number of trees, some of them optional
  | _ => simp [inner] at h ⊢ <;> grind

theorem sizeOf_turns (h : t ∈ node.turns) : sizeOf t < sizeOf node := by
  cases node with
  | forEach var iterable step body =>
    have := List.sizeOf_lt_of_mem (show t ∈ body from h)
    rw [forEach.sizeOf_spec]
    omega
  | whileLoop condition body =>
    have := List.sizeOf_lt_of_mem (show t ∈ body from h)
    rw [whileLoop.sizeOf_spec]
    omega
  | _ => cases h

theorem sizeOf_units (h : t ∈ node.units) : sizeOf t < sizeOf node := by
  cases node with
  | classDef c =>
    obtain ⟨d, hd, ht⟩ := List.mem_flatMap.mp h
    have := ClassDecl.sizeOf_classes hd
    have := ClassDecl.sizeOf_code ht
    rw [classDef.sizeOf_spec]
    omega
  | define f =>
    have := Method.sizeOf_code (show t ∈ f.code from h)
    rw [define.sizeOf_spec]
    omega
  | lambda params body =>
    rw [lambda.sizeOf_spec]
    rcases List.mem_append.mp h with h | h
    · have := List.sizeOf_lt_of_mem h
      omega
    · have := sizeOf_paramDefaults h
      omega
  | _ => cases h

end Node

/-! ## trees that are well placed -/

/-- does a condition hold of a tree and all trees in it? The flag says whether a tree stands in a loop of its unit. -/
def Node.everywhere (p : Bool → Node → Bool) (l : Bool) (node : Node) : Bool :=
  p l node && node.inner.attach.all (fun ⟨t, _⟩ => t.everywhere p l) &&
    node.turns.attach.all (fun ⟨t, _⟩ => t.everywhere p true) &&
    node.units.attach.all (fun ⟨t, _⟩ => t.everywhere p false)
termination_by sizeOf node
decreasing_by
  · exact Node.sizeOf_inner ‹_›
  · exact Node.sizeOf_turns ‹_›
  · exact Node.sizeOf_units ‹_›

theorem Node.everywhere_iff {p : Bool → Node → Bool} {l : Bool} {node : Node} :
    node.everywhere p l = true ↔ p l node = true ∧ (∀ t ∈ node.inner, t.everywhere p l = true) ∧
      (∀ t ∈ node.turns, t.everywhere p true = true) ∧ ∀ t ∈ node.units, t.everywhere p false = true := by
  rw [Node.everywhere]
  simp only [Bool.and_eq_true, List.all_eq_true, and_assoc, List.mem_attach, forall_const, Subtype.forall]

/-- is no default of a field in a tree that declares a class an access to an attribute? -/
def Node.plainHere : Node → Bool
  | .classDef c => c.classes.all fun d => d.defaults.all fun e => !e.isGetAttr
  | _ => true

/-- does a tree by itself leave the words of loops in their places? The flag says whether it stands in a
loop of its unit. -/
def Node.placedHere (l : Bool) : Node → Bool
  | .breakLoop => l
  | .continueLoop => l
  | node => node.plainHere

theorem Node.plainHere_of_placedHere {l : Bool} {node : Node} (h : node.placedHere l = true) :
    node.plainHere = true := by
  cases node <;> first | rfl | exact h

/-- trees that a text can be read as, and that meet a condition everywhere -/
def everywhereLaw (p : Bool → Node → Bool) (hp : ∀ {l node}, p l node = true → node.plainHere = true) : Law :=
  Condition.law {
    Holds := fun l t => t.everywhere p l = true
    inner := fun h => (Node.everywhere_iff.mp h).2.1
    turns := fun h => (Node.everywhere_iff.mp h).2.2.1
    units := fun h => (Node.everywhere_iff.mp h).2.2.2
    access := fun h => ClassDecl.not_access (hp (Node.everywhere_iff.mp h).1) }

/-- is a tree well placed? The flag says whether it stands in a loop of its unit. -/
def Node.placed (l : Bool) (node : Node) : Bool := node.everywhere placedHere l

def wellPlaced (body : List Node) : Bool := body.all (Node.placed false)

-- the body of a function is no part of the loop around it
example : wellPlaced [.whileLoop (.str "a") [.lambda [] [.breakLoop]]] = false := by decide +kernel

/-- well placed trees that a text can be read as -/
def placedLaw : Law := everywhereLaw Node.placedHere Node.plainHere_of_placedHere

theorem wellPlaced_obeys {source : String} {body : List Node} (hp : parseSource source = .ok body)
    (hw : wellPlaced body = true) : ∀ t ∈ blockSteps body, t.Obeys placedLaw false :=
  Condition.law_read hp (List.all_eq_true.mp hw)

end BraceScript
