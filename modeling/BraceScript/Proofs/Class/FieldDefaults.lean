import BraceScript.Proofs.Call.ByPlace
import BraceScript.Proofs.Class.WrittenAttributes
import BraceScript.Proofs.Exec.Quiet
import BraceScript.Proofs.Library.Inclusion

/-!
# Defaults of fields

A constructor evaluates the default of a field in the global scope, but it takes the accesses of attributes at the end
of the default into its own hands: it evaluates the object, and then executes its value as a tree, once more, before
it looks the attribute up. A text that names a class is taken for the class. So the default of a field has the meaning
of its expression if it does not end with an attribute. If it does, hardly anything is left of the meaning: most
values are no trees.

* `Node.root`, `Node.accesses`   an expression and the attributes that are accessed at its end
* `exec_accesses`                executing it
* `fieldDefault_accesses`        evaluating it as a default
* `evalQuoted_of_opensTree`      most values fail as trees
* `ordinary_attributes`          attributes never fail in this way
* `field_default`                the default of a field and its expression
-/

namespace BraceScript

open Exec

/-! ## attribute accesses -/

namespace Node

/-- the expression without the attribute accesses at its end -/
def root : Node → Node
  | .getAttr object _ => root object
  | e => e

/-- the attributes that are accessed at the end of an expression, in order -/
def accesses : Node → List String
  | .getAttr object attr => accesses object ++ [attr]
  | _ => []

theorem root_eq {e : Node} (h : ∀ object attr, e ≠ .getAttr object attr) : e.root = e := by
  cases e with
  | getAttr object attr => exact absurd rfl (h object attr)
  | _ => rfl

end Node

/-- an expression is its root with the accesses applied in order -/
theorem exec_accesses (n s : Nat) (e : Node) : (machine (n + e.accesses.length)).exec e s =
    (machine n).exec e.root s >>= fun object => e.accesses.foldlM getAttribute object := by
  fun_induction Node.accesses e with
  | case1 object attr ih =>
    rw [List.length_append]
    show ((machine (n + object.accesses.length)).exec object s >>= fun o => getAttribute o attr) = _
    rw [ih, bind_assoc]
    simp only [List.foldlM_append, List.foldlM_cons, List.foldlM_nil, bind_pure]
    rfl
  | case2 e hne =>
    rw [Node.root_eq hne]
    exact (bind_pure _).symm

/-- an attribute in a default: of a class that a text names, it is a method; any other object is executed as a tree
before its attribute is looked up -/
def defaultAttribute (m : Machine) (globals : Nat) (object : Value) (attr : String) : Exec Value := do
  match classNamed? (← get) object with
  | some (name, c) =>
    match c.methods.lookup attr with
    | some cell => return .function cell
    | none => fail (.noMethod name attr)
  | none => m.exec (.getAttr (.quoted object) attr) globals

section
variable {m : Machine} {qualified : List (String × String)} {globals : Nat}

/-- a default without accesses is executed, unless it names a class inside the class -/
theorem fieldDefault_root {e : Node} (hnested : ∀ name, e.root = .var name → qualified.lookup name = none) :
    fieldDefault m qualified globals e.root = m.exec e.root globals := by
  fun_induction Node.root e with
  | case1 object attr ih => exact ih hnested
  | case2 e hne =>
    cases e with
    | var name =>
      rw [fieldDefault]
      simp only [hnested name rfl]
    | getAttr object attr => exact absurd rfl (hne object attr)
    | _ => rfl

/-- a default is its root with the accesses applied in order, in the way of defaults -/
theorem fieldDefault_accesses (e : Node) : fieldDefault m qualified globals e =
    fieldDefault m qualified globals e.root >>= fun object =>
      e.accesses.foldlM (defaultAttribute m globals) object := by
  fun_induction Node.accesses e with
  | case1 object attr ih =>
    show (fieldDefault m qualified globals object >>= fun o => defaultAttribute m globals o attr) = _
    rw [ih, bind_assoc]
    simp only [List.foldlM_append, List.foldlM_cons, List.foldlM_nil, bind_pure]
    rfl
  | case2 e hne =>
    rw [Node.root_eq hne]
    exact (bind_pure _).symm

end

/-! ## values that are executed as trees -/

/-- does a value have a first part that may be the kind of a tree? -/
def World.opensTree (w : World) : Value → Bool
  | .list cell => !(w.list cell).isEmpty
  | .tuple cell => !(w.tuple cell).isEmpty
  | .dict cell => ((w.dict cell).find? (.int 0)).isSome
  | _ => false

def Fault.ofTree : Fault → Bool
  | .noLength _ => true
  | .indexRange _ => true
  | .missingKey v => v = .int 0
  | .unknownNode _ => true
  | .noMethod .. => true
  | _ => false

section
variable {w : World} (run : Node → Exec Value)

theorem evalQuoted_of_first {v : Value} {n : Nat} {s : Signal} (hlength : length v w = .ok n w)
    (hfirst : treePart v 0 w = .error s w) : evalQuoted run v w = .error s w := by
  have hunwrap : unwrapTree v w = if n = 1 then .error s w else .ok v w := by
    rw [unwrapTree, bind_run, hlength]
    dsimp only
    split
    · rw [bind_run, hfirst]
    · rfl
  rw [evalQuoted, bind_run, hunwrap]
  by_cases hn : n = 1
  · rw [if_pos hn]
  · rw [if_neg hn]
    dsimp only
    rw [bind_run, hfirst]

section
variable {t kind : String} (h : kind.length = 1)
include h

theorem treeSize?_letter : treeSize? kind = none := by
  unfold treeSize?
  split
  all_goals first | exact absurd h (by decide) | rfl

theorem readStatementTree_letter : readStatementTree (.str t) kind w = .error (.fault (.unknownNode t)) w := by
  obtain ⟨parts, hitems⟩ : ∃ parts, items (.str t) w = .ok parts w := ⟨_, rfl⟩
  rw [readStatementTree, bind_run, hitems]
  dsimp only
  split
  all_goals first | exact absurd h (by decide) | rfl

theorem readUpdateTree_letter : readUpdateTree (.str t) kind w = .error (.fault (.unknownNode t)) w := by
  obtain ⟨parts, hitems⟩ : ∃ parts, items (.str t) w = .ok parts w := ⟨_, rfl⟩
  rw [readUpdateTree, bind_run, hitems]
  dsimp only
  split
  all_goals first | exact absurd h (by decide) | exact readStatementTree_letter h

theorem readCollectionTree_letter : readCollectionTree (.str t) kind w = .error (.fault (.unknownNode t)) w := by
  obtain ⟨parts, hitems⟩ : ∃ parts, items (.str t) w = .ok parts w := ⟨_, rfl⟩
  rw [readCollectionTree, bind_run, hitems]
  dsimp only
  split
  all_goals first | exact absurd h (by decide) | exact readUpdateTree_letter h

theorem readTree_letter : readTree (.str t) kind w = .error (.fault (.unknownNode t)) w := by
  obtain ⟨parts, hitems⟩ : ∃ parts, items (.str t) w = .ok parts w := ⟨_, rfl⟩
  rw [readTree, treeSize?_letter h]
  show (items (.str t) >>= readParts (.str t) kind) w = _
  rw [bind_run, hitems]
  dsimp only
  unfold readParts
  split
  all_goals first | exact absurd h (by decide) | rw [bind_run, readCollectionTree_letter h]

end

theorem treePart_text (t : String) : treePart (.str t) 0 w =
    t.toList.head?.elim (.error (.fault (.indexRange "string")) w) fun c => .ok (.str c.toString) w := by
  show (indexOf (.str t) (.int 0) >>= fun i => _) w = _
  have hindex : indexOf (.str t) (.int 0) w = .ok 0 w := rfl
  rw [bind_run, hindex]
  dsimp only
  cases t.toList with
  | nil => rfl
  | cons c cs =>
    have hplace : placeOf (c :: cs).length 0 = some 0 := by simp [placeOf]
    rw [hplace]
    rfl

theorem treePart_text_of_head {t : String} {c : Char} (h : t.toList.head? = some c) :
    treePart (.str t) 0 w = .ok (.str c.toString) w := by
  rw [treePart_text, h]
  rfl

/-- a text is no tree: its kind would be its first letter -/
theorem evalQuoted_text {t : String} {c : Char} (h : t.toList.head? = some c) :
    ∃ t', evalQuoted run (.str t) w = .error (.fault (.unknownNode t')) w := by
  have hletter : c.toString.length = 1 := String.length_singleton
  have hbare : isBareStatement (.str c.toString) = false := by
    rw [isBareStatement, Bool.or_eq_false_iff, decide_eq_false_iff_not, decide_eq_false_iff_not]
    constructor
    all_goals
      intro he
      rw [Value.str.inj he] at hletter
      exact absurd hletter (by decide)
  obtain ⟨t', hhead, hunwrap⟩ : ∃ t', t'.toList.head? = some c ∧ unwrapTree (.str t) w = .ok (.str t') w := by
    have hlength : length (.str t) w = .ok t.length w := rfl
    rw [unwrapTree, bind_run, hlength]
    dsimp only
    by_cases hone : t.length = 1
    · refine ⟨c.toString, by simp, ?_⟩
      rw [if_pos hone, bind_run, treePart_text_of_head h]
      dsimp only
      rw [if_neg (by rw [hbare]; decide)]
      rfl
    · rw [if_neg hone]
      exact ⟨t, h, rfl⟩
  refine ⟨t', ?_⟩
  rw [evalQuoted, bind_run, hunwrap]
  dsimp only
  rw [bind_run, treePart_text_of_head hhead]
  dsimp only
  rw [bind_run, readTree_letter hletter]

theorem treePart_list {cell : Nat} (h : w.list cell = #[]) :
    treePart (.list cell) 0 w = .error (.fault (.indexRange "list")) w := by
  have hindex : indexOf (.list cell) (.int (0 : Nat)) w = .ok 0 w := rfl
  rw [treePart, element, bind_run, hindex]
  dsimp only
  rw [bind_run, get_run]
  dsimp only
  rw [h]
  rfl

theorem treePart_tuple {cell : Nat} (h : w.tuple cell = []) :
    treePart (.tuple cell) 0 w = .error (.fault (.indexRange "tuple")) w := by
  have hindex : indexOf (.tuple cell) (.int (0 : Nat)) w = .ok 0 w := rfl
  rw [treePart, element, bind_run, hindex]
  dsimp only
  rw [bind_run, get_run]
  dsimp only
  rw [h]
  rfl

theorem treePart_dict {cell : Nat} (h : (w.dict cell).find? (.int 0) = none) :
    treePart (.dict cell) 0 w = .error (.fault (.missingKey (.int 0))) w := by
  have hkey : findKey cell (.int (0 : Nat)) w = .ok none w := by
    rw [← h]
    rfl
  rw [treePart, element, bind_run, hkey]
  rfl

/-- a value without a first part that may be a kind is no tree -/
theorem evalQuoted_of_opensTree {v : Value} (h : w.opensTree v = false) :
    ∃ f : Fault, f.ofTree = true ∧ evalQuoted run v w = .error (.fault f) w := by
  cases v with
  | str t =>
    cases hc : t.toList.head? with
    | none =>
      have hfirst : treePart (.str t) 0 w = .error (.fault (.indexRange "string")) w := by
        rw [treePart_text, hc]
        rfl
      exact ⟨_, rfl, evalQuoted_of_first run rfl hfirst⟩
    | some c =>
      obtain ⟨t', ht⟩ := evalQuoted_text run (w := w) hc
      exact ⟨_, rfl, ht⟩
  | list cell =>
    have hempty : w.list cell = #[] := by simpa [World.opensTree] using h
    exact ⟨_, rfl, evalQuoted_of_first run rfl (treePart_list hempty)⟩
  | tuple cell =>
    have hempty : w.tuple cell = [] := by simpa [World.opensTree] using h
    exact ⟨_, rfl, evalQuoted_of_first run rfl (treePart_tuple hempty)⟩
  | dict cell =>
    have hnone : (w.dict cell).find? (.int 0) = none := by simpa [World.opensTree] using h
    exact ⟨_, rfl, evalQuoted_of_first run rfl (treePart_dict hnone)⟩
  | _ => exact ⟨_, rfl, rfl⟩

end

/-! ## attributes never fail like trees -/

def Signal.Ordinary (s : Signal) : Prop := ∀ f : Fault, s = .fault f → f.ofTree = false

namespace Exec

variable {α : Type}

def ordinaryManner : Manner := ⟨SameScopes, .refl, .trans, Signal.Ordinary⟩

def Ordinary (x : Exec α) : Prop := Runs ordinaryManner x

theorem ordinary_fail {f : Fault} (h : f.ofTree = false) : Ordinary (fail f : Exec α) :=
  runs_throw fun _ e => Signal.fault.inj e ▸ h

theorem ordinary_query {f : World → Except Fault α} {b : World → Bool} (h : ∀ w, TextIf (f w) (b w)) :
    Ordinary (query f) := by
  refine runs_bind runs_get fun w => ?_
  have hw := h w
  generalize f w = r, b w = c at hw
  cases hw with
  | text a => exact runs_pure a
  | none => exact ordinary_fail rfl

theorem ordinary_newCallable (c : Callable) : Ordinary (newCallable c) :=
  runs_modifyGet fun w => ⟨rfl, rfl, .of_eq rfl, .push w.callables c⟩

theorem ordinary_checkKey (v : Value) : Ordinary (checkKey v) := by
  refine runs_bind runs_get fun w => ?_
  split
  · exact ordinary_fail rfl
  · exact runs_pure _

theorem ordinary_memberNames (type : Value) : Ordinary (memberNames type) := by
  cases type with
  | str name =>
    refine runs_bind runs_get fun w => ?_
    split
    · exact runs_pure _
    · exact runs_throw nofun
  | _ => exact runs_pure _

theorem ordinary_noMember (cell : Nat) (type : Value) (attr : String) (names : List String) :
    Ordinary (noMember cell type attr names) := by
  refine runs_bind runs_get fun w => ?_
  refine runs_bind (runs_mapM (fun v => ordinary_query fun w => w.textIf_shown v) _) fun keys => ?_
  exact runs_bind (ordinary_query fun w => w.textIf_plain type) fun name => ordinary_fail rfl

theorem ordinary_otherAttribute (cell : Nat) (type : Value) (attr : String) :
    Ordinary (otherAttribute cell type attr) := by
  refine runs_bind (ordinary_memberNames type) fun names => ?_
  split
  · refine runs_bind runs_get fun w => ?_
    split
    · exact ordinary_fail rfl
    · split
      · exact ordinary_newCallable _
      · exact ordinary_noMember _ _ _ _
  · exact ordinary_noMember _ _ _ _

theorem ordinary_instanceAttribute (cell : Nat) (type : Value) (attr : String) :
    Ordinary (instanceAttribute cell type attr) := by
  refine runs_bind (ordinary_checkKey type) fun _ => runs_bind runs_get fun w => ?_
  dsimp only
  split
  · exact ordinary_newCallable _
  · exact runs_pure _
  · exact ordinary_otherAttribute _ _ _

theorem ordinary_getAttribute (object : Value) (attr : String) : Ordinary (getAttribute object attr) := by
  unfold getAttribute
  cases object with
  | dict cell =>
    refine runs_bind runs_get fun w => ?_
    dsimp only
    split
    · exact ordinary_instanceAttribute _ _ _
    · split
      · exact runs_pure _
      · exact ordinary_fail rfl
  | str t =>
    dsimp only
    split
    · exact ordinary_newCallable _
    · exact ordinary_fail rfl
  | list cell =>
    dsimp only
    split
    · exact ordinary_newCallable _
    · exact ordinary_fail rfl
  | _ => exact ordinary_fail rfl

theorem ordinary_attributes (attrs : List String) (object : Value) : Ordinary (attrs.foldlM getAttribute object) := by
  induction attrs generalizing object with
  | nil => exact runs_pure object
  | cons attr attrs ih =>
    rw [List.foldlM_cons]
    exact runs_bind (ordinary_getAttribute object attr) fun v => ih v

end Exec

/-! ## defaults -/

/-- the value or the signal that an evaluation ends with -/
def Exec.outcome {α : Type} : EStateM.Result Signal World α → Except Signal α
  | .ok a _ => .ok a
  | .error s _ => .error s

section
variable (n globals : Nat) {object : Value} {w : World}

theorem classNamed?_eq_some {name : String} {c : ClassInfo} (h : classNamed? w object = some (name, c)) :
    object = .str name := by
  cases object with
  | str s =>
    obtain ⟨c', -, he⟩ := Option.map_eq_some_iff.1 h
    cases he
    rfl
  | _ => cases h

/-- an attribute of a value that is no tree is a method of the class that the value names, or it fails in a way that
no attribute does -/
theorem defaultAttribute_cases (h : w.opensTree object = false) (attr : String) :
    (∃ name cell, object = .str name ∧
      defaultAttribute (machine (n + 2)) globals object attr w = .ok (.function cell) w) ∨
    ∃ f : Fault, f.ofTree = true ∧ defaultAttribute (machine (n + 2)) globals object attr w = .error (.fault f) w := by
  rw [defaultAttribute, bind_run, get_run]
  dsimp only
  cases hc : classNamed? w object with
  | none =>
    obtain ⟨f, hf, he⟩ := evalQuoted_of_opensTree (execPlain (machine n) globals) h
    have hquoted : (machine (n + 1)).exec (.quoted object) globals w = .error (.fault f) w := he
    refine .inr ⟨f, hf, ?_⟩
    show ((machine (n + 1)).exec (.quoted object) globals >>= fun o => getAttribute o attr) w = _
    rw [bind_run, hquoted]
  | some p =>
    obtain ⟨name, c⟩ := p
    dsimp only
    cases c.methods.lookup attr with
    | some cell => exact .inl ⟨name, cell, classNamed?_eq_some hc, rfl⟩
    | none => exact .inr ⟨_, rfl, rfl⟩

theorem outcome_attributes_ne (attrs : List String) {f : Fault} (hf : f.ofTree = true) :
    outcome (attrs.foldlM getAttribute object w) ≠ .error (.fault f) := by
  intro he
  cases hr : attrs.foldlM getAttribute object w with
  | ok v u =>
    rw [hr] at he
    cases he
  | error s u =>
    rw [hr] at he
    have hf' := (ordinary_attributes attrs object w).2 s u hr f (Except.error.inj he)
    rw [hf] at hf'
    cases hf'

theorem getAttribute_text_ne (t attr : String) (cell : Nat) :
    outcome (getAttribute (.str t) attr w) ≠ .ok (.function cell) := by
  rw [getAttribute]
  intro he
  cases hm : TextMethod.ofName? attr with
  | none =>
    rw [hm] at he
    cases he
  | some m =>
    rw [hm] at he
    cases he

/-- a default and its expression go apart at the first attribute of a value that is no tree -/
theorem attributes_ne (h : w.opensTree object = false) {attrs : List String} (hne : attrs ≠ []) :
    outcome (attrs.foldlM (defaultAttribute (machine (n + 2)) globals) object w) ≠
      outcome (attrs.foldlM getAttribute object w) := by
  have hfault : ∀ {f : Fault}, f.ofTree = true →
      attrs.foldlM (defaultAttribute (machine (n + 2)) globals) object w = .error (.fault f) w →
      outcome (attrs.foldlM (defaultAttribute (machine (n + 2)) globals) object w) ≠
        outcome (attrs.foldlM getAttribute object w) := by
    intro f hf herr
    rw [herr]
    exact (outcome_attributes_ne attrs hf).symm
  cases attrs with
  | nil => exact absurd rfl hne
  | cons attr attrs =>
    rcases defaultAttribute_cases n globals h attr with ⟨name, cell, rfl, hok⟩ | ⟨f, hf, herr⟩
    · cases attrs with
      | nil =>
        have hone : ∀ (g : Value → String → Exec Value) (o : Value), [attr].foldlM g o = g o attr := fun g o =>
          bind_pure (g o attr)
        rw [hone, hone, hok]
        exact (getAttribute_text_ne name attr cell).symm
      | cons other attrs =>
        -- a function is no tree either, and names no class
        have hfunction : w.opensTree (.function cell) = false := rfl
        rcases defaultAttribute_cases n globals hfunction other with ⟨_, _, he, -⟩ | ⟨f, hf, herr⟩
        · cases he
        · refine hfault hf ?_
          rw [List.foldlM_cons, bind_run, hok]
          dsimp only
          rw [List.foldlM_cons, bind_run, herr]
    · refine hfault hf ?_
      rw [List.foldlM_cons, bind_run, herr]

end

theorem lookup_foldl_putAt {α : Type} {name : String} {cs : List (ClassDecl Node)} (h : ∀ d ∈ cs, d.name ≠ name)
    (value : ClassDecl Node → α) {acc : List (String × α)} (hacc : acc.lookup name = none) :
    (cs.foldl (fun acc c => putAt c.name (value c) acc) acc).lookup name = none := by
  induction cs generalizing acc with
  | nil => exact hacc
  | cons c cs ih =>
    rw [List.forall_mem_cons] at h
    refine ih h.2 ?_
    rw [lookup_putAt, if_neg (Ne.symm h.1), hacc]

theorem construct_default {m : Machine} {className f : String} {before after : List (String × Option Node)} {e : Node}
    {qualified : List (String × String)} {args values : List Value} {w₀ w : World} (hargs : args.length ≤ before.length)
    (hbefore : (before.drop args.length).mapM (fieldValue m qualified) w₀ = .ok values w) :
    construct m className (before ++ (f, some e) :: after) qualified args w₀ =
      (fieldDefault m qualified w.globals e >>= fun v => after.mapM (fieldValue m qualified) >>= fun more =>
        newDict (.instance className ((before ++ (f, some e) :: after).map Prod.fst)
          (args ++ (values ++ v :: more)))) w := by
  rw [construct_eq, List.drop_append_of_le_length hargs, List.mapM_append, bind_assoc, bind_run, hbefore]
  simp only [List.mapM_cons, bind_assoc, pure_bind]
  rfl

/-- **What the default of a field means.** Let a constructor come to a field without an argument, with a default whose
root is no name of a class inside the class. The constructor fails as the default does, or puts its value. A default
that accesses no attribute at its end is executed in the global scope. With attributes this is so only if their root
fails: unless the value of the root may be a tree, the default never gives the value of the expression, and never
fails as the expression does. -/
theorem field_default {n k : Nat} {className f : String} {parents : List String} {methods : List (Method Node)}
    {nested : List (ClassDecl Node)} {before after : List (String × Option Node)} {e : Node} {included : Bool}
    {args values : List Value} {w₀ w : World}
    (hk : w₀.callable k =
      constructorOf included (.mk className parents (before ++ (f, some e) :: after) methods nested))
    (hargs : args.length ≤ before.length)
    (hbefore : (before.drop args.length).mapM (fieldValue (machine (n + 2))
      (qualifiedNames (.mk className parents (before ++ (f, some e) :: after) methods nested))) w₀ = .ok values w)
    (hnested : ∀ d ∈ nested, e.root ≠ .var d.name) :
    let fields := before ++ (f, some e) :: after
    let qualified := qualifiedNames (.mk className parents fields methods nested)
    let made := callValue (machine (n + 2)) (.callable k) args w₀
    let default := fieldDefault (machine (n + 2)) qualified w.globals e w
    let root := (machine (n + 2)).exec e.root w.globals w
    let executed := (machine (n + 2 + e.accesses.length)).exec e w.globals w
    (∀ s u, default = .error s u → made = .error s u) ∧
    (∀ v u, default = .ok v u → made = (after.mapM (fieldValue (machine (n + 2)) qualified) >>= fun more =>
      newDict (.instance className (fields.map Prod.fst) (args ++ (values ++ v :: more)))) u) ∧
    (e.accesses = [] → default = executed) ∧
    (∀ s u, root = .error s u → default = .error s u ∧ executed = .error s u) ∧
    ∀ object u, root = .ok object u → e.accesses ≠ [] → u.opensTree object = false →
      outcome default ≠ outcome executed := by
  intro fields qualified made default root executed
  have hdefault : default =
      ((machine (n + 2)).exec e.root w.globals >>= fun object =>
        e.accesses.foldlM (defaultAttribute (machine (n + 2)) w.globals) object) w := by
    show fieldDefault (machine (n + 2)) qualified w.globals e w = _
    rw [fieldDefault_accesses, fieldDefault_root]
    intro name hname
    exact lookup_foldl_putAt (fun d hd he => hnested d hd (by rw [hname, he])) _ rfl
  have hexecuted : executed = ((machine (n + 2)).exec e.root w.globals >>= fun object =>
      e.accesses.foldlM getAttribute object) w := congrFun (exec_accesses (n + 2) w.globals e) w
  have hmade : made = (fieldDefault (machine (n + 2)) qualified w.globals e >>= fun v =>
      after.mapM (fieldValue (machine (n + 2)) qualified) >>= fun more =>
        newDict (.instance className (fields.map Prod.fst) (args ++ (values ++ v :: more)))) w := by
    rw [← construct_default hargs hbefore]
    show callValue _ _ _ _ = _
    rw [callValue, bind_run, get_run]
    simp only [hk]
    rfl
  refine ⟨?_, ?_, ?_, ?_, ?_⟩
  · intro s u h
    rw [hmade, bind_run, show fieldDefault _ _ _ _ _ = _ from h]
  · intro v u h
    rw [hmade, bind_run, show fieldDefault _ _ _ _ _ = _ from h]
  · intro h
    rw [hdefault, hexecuted, h]
    rfl
  · intro s u h
    rw [hdefault, hexecuted, bind_run, bind_run, show (machine (n + 2)).exec _ _ _ = _ from h]
    exact ⟨rfl, rfl⟩
  · intro object u h hne htree
    rw [hdefault, hexecuted, bind_run, bind_run, show (machine (n + 2)).exec _ _ _ = _ from h]
    exact attributes_ne n w.globals htree hne

/-- `q` is an instance with `a = 5`, and a class has the field `x = q.a` -/
def World.defaulted : World :=
  { (default : World) with
    scopes := #[⟨[("q", .dict 0)], none⟩]
    dicts := #[.instance "Q" ["a"] [.int 5]]
    classes := ⟨[("Q", ⟨[("a", none)], none, []⟩)]⟩
    callables := #[constructorOf false (.mk "P" [] [("x", some (.getAttr (.var "q") "a"))] [] [])] }

/-- the attribute `q.a` is `5`, but the class with the field `x = q.a` has no instances: `q` has no entry `0` -/
theorem field_default_attribute :
    outcome ((machine 3).exec (.getAttr (.var "q") "a") 0 World.defaulted) = .ok (.int 5) ∧
    callValue (machine 2) (.callable 0) [] World.defaulted =
      .error (.fault (.missingKey (.int 0))) World.defaulted ∧
    outcome (fieldDefault (machine 2) [] 0 (.getAttr (.var "q") "a") World.defaulted) ≠
      outcome ((machine 3).exec (.getAttr (.var "q") "a") 0 World.defaulted) := by
  have hk : World.defaulted.callable 0 = constructorOf false
      (.mk "P" [] ([] ++ ("x", some (.getAttr (.var "q") "a")) :: []) [] []) := rfl
  have hargs : ([] : List Value).length ≤ ([] : List (String × Option Node)).length := Nat.le_refl 0
  obtain ⟨hfails, -, -, -, hne⟩ := field_default (n := 0) hk hargs rfl (fun d hd => by cases hd)
  exact ⟨rfl, hfails _ _ rfl, hne (.dict 0) World.defaulted rfl (by decide) rfl⟩

end BraceScript
