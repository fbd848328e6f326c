import BraceScript.Eval.Display
import BraceScript.Proofs.Parse.Regular

/-!
# Trees without values

A tree that holds no value of the store means the same in every state, and so does its text. All trees that
are read from a program text are like that.

* `Node.Closed`          no value of the store stands in the tree
* `nodeText_closed`      the text of such a tree is the same in every state
* `parseSource_closed`   a program text is read as such trees
-/

namespace BraceScript

/-! ## forms -/

mutual

def Form.closed : Form → Bool
  | .value _ => false
  | .tuple items => formsClosed items
  | .list items => formsClosed items
  | .dict items => entriesClosed items
  | _ => true

def formsClosed : List Form → Bool
  | [] => true
  | f :: fs => f.closed && formsClosed fs

def entriesClosed : List (String × Form) → Bool
  | [] => true
  | (_, f) :: rest => f.closed && entriesClosed rest

end

section
variable (g g' : Value → String)

mutual

theorem Form.text_closed : (f : Form) → f.closed = true → f.text g = f.text g'
  | .null, _ | .int _, _ | .real _, _ | .str _, _ => rfl
  | .tuple items, h => by rw [Form.text, Form.text, formTexts_closed items h]
  | .list items, h => by rw [Form.text, Form.text, formTexts_closed items h]
  | .dict items, h => by rw [Form.text, Form.text, entryTexts_closed items h]

theorem formTexts_closed : (fs : List Form) → formsClosed fs = true → formTexts g fs = formTexts g' fs
  | [], _ => rfl
  | f :: fs, h => by
    rw [formsClosed, Bool.and_eq_true] at h
    rw [formTexts, formTexts, f.text_closed h.1, formTexts_closed fs h.2]

theorem entryTexts_closed : (es : List (String × Form)) → entriesClosed es = true →
    entryTexts g es = entryTexts g' es
  | [], _ => rfl
  | (k, f) :: es, h => by
    rw [entriesClosed, Bool.and_eq_true] at h
    rw [entryTexts, entryTexts, f.text_closed h.1, entryTexts_closed es h.2]

end

end

/-! ## trees -/

/-- no value of the store stands in the tree -/
def Node.Closed (node : Node) : Prop := node.form.closed = true

theorem nodeText_closed {node : Node} (h : node.Closed) (w w' : World) : w.nodeText node = w'.nodeText node :=
  Form.text_closed _ _ node.form h

theorem formsClosed_forms {ns : List Node} : formsClosed (forms ns) = true ↔ ∀ t ∈ ns, t.Closed := by
  induction ns with
  | nil => simp [forms, formsClosed]
  | cons n ns ih => rw [forms, formsClosed, Bool.and_eq_true, ih, List.forall_mem_cons, Node.Closed]

theorem closed_optionForm {o : Option Node} : (optionForm o).closed = true ↔ ∀ t ∈ o.toList, t.Closed := by
  cases o with
  | none => simp [optionForm, Form.closed]
  | some n => simp [optionForm, Node.Closed]

theorem closed_stepForm {o : Option Node} : (stepForm o).closed = true ↔ ∀ t ∈ o.toList, t.Closed := by
  cases o with
  | none => simp [stepForm, Form.closed]
  | some n => simp [stepForm, Form.kind, Form.closed, formsClosed, Node.Closed]

theorem closed_conditionForm {ns : List Node} :
    (conditionForm ns).closed = true ↔ ∀ t ∈ ns, t.Closed := by
  cases ns with
  | nil => simp [conditionForm, Form.closed]
  | cons n ns => exact @formsClosed_forms (n :: ns)

theorem formsClosed_pairForms {ps : List (Node × Node)} :
    formsClosed (pairForms ps) = true ↔ ∀ t ∈ ps.flatMap fun p => [p.1, p.2], t.Closed := by
  induction ps with
  | nil => simp [pairForms, formsClosed]
  | cons p ps ih =>
    rw [List.flatMap_cons, List.forall_mem_append, ← ih]
    simp [pairForms, formsClosed, Form.closed, Node.Closed]

theorem entriesClosed_keywordForms {ks : List (String × Node)} :
    entriesClosed (keywordForms ks) = true ↔ ∀ t ∈ ks.map Prod.snd, t.Closed := by
  induction ks with
  | nil => simp [keywordForms, entriesClosed]
  | cons p ks ih =>
    rw [List.map_cons, List.forall_mem_cons, ← ih]
    simp [keywordForms, entriesClosed, Node.Closed]

theorem formsClosed_branchForms {first : Bool} {bs : List (Option Node × List Node)} :
    formsClosed (branchForms first bs) = true ↔ ∀ t ∈ bs.flatMap fun b => b.1.toList ++ b.2, t.Closed := by
  induction bs generalizing first with
  | nil => simp [branchForms, formsClosed]
  | cons b bs ih =>
    obtain ⟨c, body⟩ := b
    rw [List.flatMap_cons, List.forall_mem_append, List.forall_mem_append, ← @ih false]
    cases c <;> simp [branchForms, formsClosed, Form.kind, Form.closed, formsClosed_forms, Node.Closed]

theorem formsClosed_caseForms {cs : List (List Node × List Node)} :
    formsClosed (caseForms cs) = true ↔ ∀ t ∈ cs.flatMap fun c => c.1 ++ c.2, t.Closed := by
  induction cs with
  | nil => simp [caseForms, formsClosed]
  | cons c cs ih =>
    obtain ⟨ps, body⟩ := c
    rw [List.flatMap_cons, List.forall_mem_append, List.forall_mem_append, ← ih, ← formsClosed_forms,
      ← formsClosed_forms]
    cases ps <;> simp [caseForms, forms, formsClosed, Form.closed]

theorem formsClosed_paramForms {ps : List (Param Node)} :
    formsClosed (paramForms ps) = true ↔ ∀ t ∈ paramDefaults ps, t.Closed := by
  induction ps with
  | nil => simp [paramForms, formsClosed, paramDefaults]
  | cons p ps ih =>
    rw [paramDefaults_cons, List.forall_mem_append, ← ih]
    cases p <;> simp [paramForms, formsClosed, Form.closed, Param.tree?, closed_optionForm]

theorem formsClosed_fieldForms {fs : List (String × Option Node)} :
    formsClosed (fieldForms fs) = true ↔ ∀ t ∈ fieldDefaults fs, t.Closed := by
  induction fs with
  | nil => simp [fieldForms, formsClosed, fieldDefaults]
  | cons f fs ih =>
    rw [fieldDefaults_cons, List.forall_mem_append, ← ih]
    simp [fieldForms, formsClosed, Form.closed, closed_optionForm]

theorem closed_methodForm {f : Method Node} : (methodForm f).closed = true ↔ ∀ t ∈ f.code, t.Closed := by
  obtain ⟨name, params, body⟩ := f
  rw [Method.code, List.forall_mem_append]
  simp [methodForm, Form.kind, Form.closed, formsClosed, formsClosed_paramForms, formsClosed_forms, and_comm]

theorem formsClosed_methodForms {fs : List (Method Node)} :
    formsClosed (methodForms fs) = true ↔ ∀ f ∈ fs, ∀ t ∈ f.code, t.Closed := by
  induction fs with
  | nil => simp [methodForms, formsClosed]
  | cons f fs ih => rw [methodForms, formsClosed, Bool.and_eq_true, closed_methodForm, ih, List.forall_mem_cons]

mutual

theorem closed_classForm : (c : ClassDecl Node) → ((classForm c).closed = true ↔
    ∀ d ∈ c.classes, (∀ t ∈ d.defaults, t.Closed) ∧ ∀ f ∈ d.methods, ∀ t ∈ f.code, t.Closed)
  | .mk name parents fields methods nested => by
    have hp : formsClosed (parents.map Form.str) = true := by
      induction parents with
      | nil => rfl
      | cons p ps ih => rw [List.map_cons, formsClosed, ih]; rfl
    rw [ClassDecl.classes, List.forall_mem_cons, ← closed_classForms nested]
    simp [classForm, Form.kind, Form.closed, formsClosed, hp, formsClosed_fieldForms, formsClosed_methodForms,
      ClassDecl.defaults, ClassDecl.methods, and_assoc]

theorem closed_classForms : (cs : List (ClassDecl Node)) → (formsClosed (classForms cs) = true ↔
    ∀ d ∈ classesIn cs, (∀ t ∈ d.defaults, t.Closed) ∧ ∀ f ∈ d.methods, ∀ t ∈ f.code, t.Closed)
  | [] => by simp [classForms, formsClosed, classesIn]
  | c :: cs => by
    rw [classForms, formsClosed, Bool.and_eq_true, closed_classForm c, closed_classForms cs, classesIn,
      List.forall_mem_append]

end

/-- the trees in a tree -/
def Node.children (node : Node) : List Node := node.inner ++ (node.turns ++ node.units)

def Node.isQuoted : Node → Bool
  | .quoted _ => true
  | _ => false

theorem Node.closed_iff {node : Node} (h : node.isQuoted = false) :
    node.Closed ↔ ∀ t ∈ node.children, t.Closed := by
  have hn (n : Numeral) : n.form.closed = true := by cases n <;> rfl
  have ho (name : Option String) : (name.elim Form.null Form.str).closed = true := by cases name <;> rfl
  cases node with
  | quoted v => cases h
  | classDef c =>
    have hc : (∀ t ∈ c.classes.flatMap fun d => d.defaults ++ d.methods.flatMap Method.code, t.Closed) ↔
        ∀ d ∈ c.classes, (∀ t ∈ d.defaults, t.Closed) ∧ ∀ f ∈ d.methods, ∀ t ∈ f.code, t.Closed := by
      simp only [List.forall_mem_flatMap, List.forall_mem_append]
    rw [Node.Closed, Node.form, closed_classForm, ← hc]
    rfl
  | define f => exact closed_methodForm
  | lambda params body =>
    show formsClosed [.str "lambda", .list (paramForms params), .list (forms body)] = true ↔
      ∀ t ∈ body ++ paramDefaults params, t.Closed
    rw [List.forall_mem_append, ← formsClosed_forms, ← formsClosed_paramForms, and_comm]
    simp [formsClosed, Form.closed]
  | _ =>
    simp only [Node.Closed, Node.form, Form.kind, Form.closed, formsClosed, Bool.true_and, Bool.and_true,
      Bool.and_eq_true, hn, ho, closed_optionForm, closed_stepForm, closed_conditionForm, formsClosed_forms,
      formsClosed_pairForms, entriesClosed_keywordForms, formsClosed_branchForms, formsClosed_caseForms,
      children, inner, turns, units, List.append_nil,
      List.forall_mem_append, List.forall_mem_cons, List.not_mem_nil, false_imp_iff, implies_true,
      and_true, and_assoc]

/-! ## trees that are read -/

theorem closed_of_steps {body : List Node} (h : ∀ t ∈ blockSteps body, t.Closed) : ∀ t ∈ body, t.Closed := by
  intro t ht
  cases t with
  | ret value =>
    refine (Node.closed_iff rfl).mpr fun e he => h e (List.mem_flatMap.mpr ⟨_, ht, ?_⟩)
    have hc : (Node.ret value).children = value.toList := List.append_nil _
    rw [hc] at he
    exact he
  | _ => exact h _ (List.mem_flatMap.mpr ⟨_, ht, List.mem_singleton_self _⟩)

theorem Method.closed_of_steps {f : Method Node} (h : ∀ t ∈ f.steps, t.Closed) : ∀ t ∈ f.code, t.Closed := by
  rw [Method.steps, List.forall_mem_append] at h
  rw [Method.code, List.forall_mem_append]
  exact ⟨BraceScript.closed_of_steps h.1, h.2⟩

theorem Node.Closed.of_parts {node : Node} (h : node.standsAlone = true) (hp : ∀ t ∈ node.parts, t.Closed) :
    node.Closed := by
  have hq : node.isQuoted = false := by cases node <;> first | rfl | cases h
  rw [Node.parts, List.forall_mem_append, List.forall_mem_append] at hp
  obtain ⟨hi, ht, hu⟩ := hp
  rw [Node.closed_iff hq, Node.children, List.forall_mem_append, List.forall_mem_append]
  refine ⟨?_, closed_of_steps ht, ?_⟩
  · cases node with
    | block body => exact closed_of_steps hi
    | ifChain branches =>
      simp only [innerSteps, inner, List.forall_mem_flatMap, List.forall_mem_append] at hi ⊢
      exact fun b hb => ⟨(hi b hb).1, closed_of_steps (hi b hb).2⟩
    | tryCatch name body handler =>
      simp only [innerSteps, inner, List.forall_mem_append] at hi ⊢
      exact ⟨closed_of_steps hi.1, closed_of_steps hi.2⟩
    | matchCase subject cases =>
      simp only [innerSteps, inner, List.forall_mem_cons, List.forall_mem_flatMap,
        List.forall_mem_append] at hi ⊢
      exact ⟨hi.1, fun c hc => ⟨(hi.2 c hc).1, closed_of_steps (hi.2 c hc).2⟩⟩
    | _ => exact hi
  · cases node with
    | classDef c =>
      simp only [unitSteps, units, List.forall_mem_flatMap, List.forall_mem_append] at hu ⊢
      exact fun d hd => ⟨(hu d hd).1, fun f hf => Method.closed_of_steps ((hu d hd).2 f hf)⟩
    | define f => exact Method.closed_of_steps hu
    | lambda params body =>
      simp only [unitSteps, units, List.forall_mem_append] at hu ⊢
      exact ⟨closed_of_steps hu.1, hu.2⟩
    | _ => exact hu

theorem Node.Regular.closed {node : Node} (h : node.Regular) : node.Closed := by
  induction h with
  | mk here _ ih => exact .of_parts here ih

/-- **A program text is read as trees without values.** -/
theorem parseSource_closed {source : String} {body : List Node} (h : parseSource source = .ok body) :
    ∀ t ∈ body, t.Closed :=
  closed_of_steps fun t ht => (parseSource_regular h t ht).closed

end BraceScript
