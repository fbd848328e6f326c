import BraceScript.Eval.Module
import BraceScript.Proofs.Parse.Progress

/-!
# Trees that are read

The trees that a program executes are regular, so a law for them need not say anything of quoted values and
returns.

* `parseSource_regular`  the trees that a program text executes are regular
* `Condition.law`        the regular trees that meet a condition
-/

namespace BraceScript

/-- the trees that a program text executes are regular -/
theorem parseSource_regular {source : String} {body : List Node} (h : parseSource source = .ok body) :
    ∀ t ∈ blockSteps body, t.Regular := by
  have he := ended_program Ledger.free (tokenize source) fun _ _ => trivial
  rw [program_of_parse h] at he
  cases he with
  | ok _ hb _ => exact hb

/-! ## laws for trees that are read -/

theorem ClassDecl.not_access {c : ClassDecl Node}
    (h : (c.classes.all fun d => d.defaults.all fun e => !e.isGetAttr) = true) :
    ∀ e ∈ c.defaults, e.isGetAttr = false := by
  intro e he
  have hd := List.all_eq_true.mp h c c.mem_classes
  have hn := List.all_eq_true.mp hd e he
  rwa [Bool.not_eq_true'] at hn

/-- a condition that passes to the trees in a tree, and that no class meets which has an access to an
attribute as the default of a field -/
structure Condition where
  Holds : Bool → Node → Prop
  inner {l : Bool} {node : Node} : Holds l node → ∀ t ∈ node.inner, Holds l t
  turns {l : Bool} {node : Node} : Holds l node → ∀ t ∈ node.turns, Holds true t
  units {l : Bool} {node : Node} : Holds l node → ∀ t ∈ node.units, Holds false t
  access {l : Bool} {c : ClassDecl Node} : Holds l (.classDef c) → ∀ e ∈ c.defaults, e.isGetAttr = false

namespace Condition

/-- the regular trees that meet a condition -/
def law (P : Condition) : Law where
  Holds l t := P.Holds l t ∧ t.Regular
  inner h ht := ⟨Node.forall_innerSteps (fun _ => P.inner) (P.inner h.1) _ ht,
    h.2.parts (List.mem_append_left _ ht)⟩
  turns h ht := ⟨Node.forall_turnSteps (fun _ => P.inner) (P.turns h.1) _ ht,
    h.2.parts (List.mem_append_right _ (List.mem_append_left _ ht))⟩
  units h ht := ⟨Node.forall_unitSteps (fun _ => P.inner) (P.units h.1) _ ht,
    h.2.parts (List.mem_append_right _ (List.mem_append_right _ ht))⟩
  access h he hg := by
    rw [P.access h.1 _ he] at hg
    cases hg

variable {P : Condition} {l : Bool}

theorem law_noReturn : P.law.NoReturn := fun _ _ h => nomatch h.2.here

theorem law_unquoted {x : Value} : ¬ (Node.quoted x).Obeys P.law l := fun h => nomatch h.2.here

theorem law_read {source : String} {body : List Node} (hp : parseSource source = .ok body)
    (hb : ∀ t ∈ body, P.Holds false t) : ∀ t ∈ blockSteps body, t.Obeys P.law false := by
  have hs := forall_blockSteps (fun _ => P.inner) hb
  exact fun t ht => ⟨hs t ht, parseSource_regular hp t ht⟩

end Condition

end BraceScript
