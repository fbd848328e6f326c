import BraceScript.Proofs.Simulation.Steps

/-!
# Trees that stand for each other

The trees that are executed are parsed from a program text, or read from a value. In both cases trees that
stand for each other are of one kind and have parts that stand for each other.

* `Bond.Shape`    trees of one kind, with parts that stand for each other
* `Shape.closed`  a tree without values has the shape of itself
* `sim_readTree`  values that stand for each other are read as trees of one shape
-/

namespace BraceScript

open Exec

namespace Bond

variable (B : Bond)

def TreePair (p p' : Node × Node) : Prop := B.Tree p.1 p'.1 ∧ B.Tree p.2 p'.2

/-- branches with their conditions -/
def Branch (b b' : Option Node × List Node) : Prop := Option.Rel B.Tree b.1 b'.1 ∧ B.Trees b.2 b'.2

def Case (c c' : List Node × List Node) : Prop := B.Trees c.1 c'.1 ∧ B.Trees c.2 c'.2

/-- trees of one kind that are no quoted values, with parts that stand for each other -/
inductive Shape : Node → Node → Prop
  | num (n : Numeral) : Shape (.num n) (.num n)
  | str (s : String) : Shape (.str s) (.str s)
  | var (name : String) : Shape (.var name) (.var name)
  | list {ts ts' : List Node} (h : B.Trees ts ts') : Shape (.list ts) (.list ts')
  | listComp {b b' i i' s s' : Node} {cs cs' : List Node} (var : String) (hb : B.Tree b b') (hi : B.Tree i i')
    (hs : B.Tree s s') (hc : B.Trees cs cs') : Shape (.listComp b var i s cs) (.listComp b' var i' s' cs')
  | dict {ps ps' : List (Node × Node)} (h : List.Forall₂ B.TreePair ps ps') : Shape (.dict ps) (.dict ps')
  | dictComp {k k' e e' i i' : Node} {c c' : Option Node} (var : String) (hk : B.Tree k k') (he : B.Tree e e')
    (hi : B.Tree i i') (hc : Option.Rel B.Tree c c') :
    Shape (.dictComp k e var i c) (.dictComp k' e' var i' c')
  | assign {e e' : Node} (name : String) (h : B.Tree e e') : Shape (.assign name e) (.assign name e')
  | augAssign {e e' : Node} (name : String) (op : AugOp) (h : B.Tree e e') :
    Shape (.augAssign name op e) (.augAssign name op e')
  | augAttr {o o' e e' : Node} (attr : String) (op : AugOp) (ho : B.Tree o o') (he : B.Tree e e') :
    Shape (.augAttr o attr op e) (.augAttr o' attr op e')
  | augIndex {o o' i i' e e' : Node} (op : AugOp) (ho : B.Tree o o') (hi : B.Tree i i') (he : B.Tree e e') :
    Shape (.augIndex o i op e) (.augIndex o' i' op e')
  | setIndex {o o' i i' e e' : Node} (ho : B.Tree o o') (hi : B.Tree i i') (he : B.Tree e e') :
    Shape (.setIndex o i e) (.setIndex o' i' e')
  | setAttr {o o' e e' : Node} (attr : String) (ho : B.Tree o o') (he : B.Tree e e') :
    Shape (.setAttr o attr e) (.setAttr o' attr e')
  | binop {a a' b b' : Node} (op : ArithOp) (ha : B.Tree a a') (hb : B.Tree b b') :
    Shape (.binop op a b) (.binop op a' b')
  | compare {a a' b b' : Node} (op : CompareOp) (ha : B.Tree a a') (hb : B.Tree b b') :
    Shape (.compare op a b) (.compare op a' b')
  | inside {a a' b b' : Node} (ha : B.Tree a a') (hb : B.Tree b b') : Shape (.inside a b) (.inside a' b')
  | outside {a a' b b' : Node} (ha : B.Tree a a') (hb : B.Tree b b') : Shape (.outside a b) (.outside a' b')
  | danglingOutside {a : Node} (h : (Node.danglingOutside a).Closed) :
    Shape (.danglingOutside a) (.danglingOutside a)
  | and {a a' b b' : Node} (ha : B.Tree a a') (hb : B.Tree b b') : Shape (.and a b) (.and a' b')
  | or {a a' b b' : Node} (ha : B.Tree a a') (hb : B.Tree b b') : Shape (.or a b) (.or a' b')
  | not {a a' : Node} (ha : B.Tree a a') : Shape (.not a) (.not a')
  | neg {a : Node} (h : (Node.neg a).Closed) : Shape (.neg a) (.neg a)
  | ternary {c c' a a' b b' : Node} (hc : B.Tree c c') (ha : B.Tree a a') (hb : B.Tree b b') :
    Shape (.ternary c a b) (.ternary c' a' b')
  | call {c c' : Node} {args args' : List Node} {ks ks' : List (String × Node)} (hc : B.Tree c c')
    (ha : B.Trees args args') (hk : Tables B.Tree ks ks') : Shape (.call c args ks) (.call c' args' ks')
  | getAttr {o o' : Node} (attr : String) (h : B.Tree o o') : Shape (.getAttr o attr) (.getAttr o' attr)
  | getItem {o o' i i' : Node} (ho : B.Tree o o') (hi : B.Tree i i') : Shape (.getItem o i) (.getItem o' i')
  | index {o o' i i' : Node} (ho : B.Tree o o') (hi : B.Tree i i') : Shape (.index o i) (.index o' i')
  | slice {o o' : Node} {a a' b b' c c' : Option Node} (ho : B.Tree o o') (ha : Option.Rel B.Tree a a')
    (hb : Option.Rel B.Tree b b') (hc : Option.Rel B.Tree c c') : Shape (.slice o a b c) (.slice o' a' b' c')
  | block {ts ts' : List Node} (h : B.Trees ts ts') : Shape (.block ts) (.block ts')
  | ifChain {bs bs' : List (Option Node × List Node)} (h : List.Forall₂ B.Branch bs bs') :
    Shape (.ifChain bs) (.ifChain bs')
  | forEach {i i' : Node} {s s' : Option Node} {ts ts' : List Node} (var : String) (hi : B.Tree i i')
    (hs : Option.Rel B.Tree s s') (ht : B.Trees ts ts') : Shape (.forEach var i s ts) (.forEach var i' s' ts')
  | whileLoop {c c' : Node} {ts ts' : List Node} (hc : B.Tree c c') (ht : B.Trees ts ts') :
    Shape (.whileLoop c ts) (.whileLoop c' ts')
  | breakLoop : Shape .breakLoop .breakLoop
  | continueLoop : Shape .continueLoop .continueLoop
  | ret {e e' : Option Node} (h : Option.Rel B.Tree e e') : Shape (.ret e) (.ret e')
  | global (name : String) : Shape (.global name) (.global name)
  | tryCatch {ts ts' us us' : List Node} (name : Option String) (ht : B.Trees ts ts') (hu : B.Trees us us') :
    Shape (.tryCatch name ts us) (.tryCatch name ts' us')
  | throw {e e' : Node} (h : B.Tree e e') : Shape (.throw e) (.throw e')
  | classDef {c : ClassDecl Node} (h : (Node.classDef c).Closed) : Shape (.classDef c) (.classDef c)
  | define {ps ps' : List (Param Node)} {ts ts' : List Node} (name : String) (hp : B.Parameters ps ps')
    (ht : B.Trees ts ts') : Shape (.define ⟨name, ps, ts⟩) (.define ⟨name, ps', ts'⟩)
  | lambda {ps ps' : List (Param Node)} {ts ts' : List Node} (hp : B.Parameters ps ps')
    (ht : B.Trees ts ts') : Shape (.lambda ps ts) (.lambda ps' ts')
  | matchCase {e e' : Node} {cs cs' : List (List Node × List Node)} (he : B.Tree e e')
    (hc : List.Forall₂ B.Case cs cs') : Shape (.matchCase e cs) (.matchCase e' cs')
  | embedded (code : String) : Shape (.embedded code) (.embedded code)
  | includeFile (path : String) : Shape (.includeFile path) (.includeFile path)
  | unpack {e e' : Node} (h : B.Tree e e') : Shape (.unpack e) (.unpack e')
  | keywordUnpack {e e' : Node} (h : B.Tree e e') : Shape (.keywordUnpack e) (.keywordUnpack e')

variable {B}

/-! ## trees without values -/

theorem Trees.same {ts : List Node} (h : ∀ t ∈ ts, t.Closed) : B.Trees ts ts :=
  List.forall₂_same.mpr fun t ht => .same (h t ht)

theorem option_same {o : Option Node} (h : ∀ t ∈ o.toList, t.Closed) : Option.Rel B.Tree o o := by
  cases o with
  | none => exact .none
  | some t => exact .some (.same (h t (List.mem_singleton_self t)))

theorem Parameters.same {ps : List (Param Node)} (h : ∀ t ∈ paramDefaults ps, t.Closed) :
    B.Parameters ps ps := by
  refine List.forall₂_same.mpr fun p hp => ?_
  cases p with
  | receiver => exact .receiver
  | rest name => exact .rest name
  | keywords name => exact .keywords name
  | plain name e =>
    refine .plain name (option_same fun t ht => h t ?_)
    exact List.mem_filterMap.mpr ⟨_, hp, Option.mem_toList.mp ht⟩

/-- **A tree without values has the shape of itself.** -/
theorem Shape.closed {t : Node} (h : t.Closed) (hq : t.isQuoted = false) : B.Shape t t := by
  have hc := (Node.closed_iff hq).mp h
  cases t
  all_goals
    simp only [Node.children, Node.inner, Node.turns, Node.units, List.append_nil, List.nil_append,
      List.forall_mem_append, List.forall_mem_cons, List.not_mem_nil, false_imp_iff, implies_true, and_true,
      and_assoc, List.forall_mem_flatMap, Method.code] at hc
  case quoted v => cases hq
  case num n => exact .num n
  case str s => exact .str s
  case var name => exact .var name
  case list ts => exact .list (.same hc)
  case listComp b x i s cs => exact .listComp x (.same hc.1) (.same hc.2.1) (.same hc.2.2.1) (.same hc.2.2.2)
  case dict ps => exact .dict (List.forall₂_same.mpr fun p hp => ⟨.same (hc p hp).1, .same (hc p hp).2⟩)
  case dictComp k e x i c => exact .dictComp x (.same hc.1) (.same hc.2.1) (.same hc.2.2.1) (option_same hc.2.2.2)
  case assign name e => exact .assign name (.same hc)
  case augAssign name op e => exact .augAssign name op (.same hc)
  case augAttr o attr op e => exact .augAttr attr op (.same hc.1) (.same hc.2)
  case augIndex o i op e => exact .augIndex op (.same hc.1) (.same hc.2.1) (.same hc.2.2)
  case setIndex o i e => exact .setIndex (.same hc.1) (.same hc.2.1) (.same hc.2.2)
  case setAttr o attr e => exact .setAttr attr (.same hc.1) (.same hc.2)
  case binop op a b => exact .binop op (.same hc.1) (.same hc.2)
  case compare op a b => exact .compare op (.same hc.1) (.same hc.2)
  case inside a b => exact .inside (.same hc.1) (.same hc.2)
  case outside a b => exact .outside (.same hc.1) (.same hc.2)
  case danglingOutside a => exact .danglingOutside h
  case and a b => exact .and (.same hc.1) (.same hc.2)
  case or a b => exact .or (.same hc.1) (.same hc.2)
  case not a => exact .not (.same hc)
  case neg a => exact .neg h
  case ternary c a b => exact .ternary (.same hc.1) (.same hc.2.1) (.same hc.2.2)
  case call c args ks =>
    refine .call (.same hc.1) (.same hc.2.1) (List.forall₂_same.mpr fun p hp => ⟨rfl, .same ?_⟩)
    exact hc.2.2 p.2 (List.mem_map_of_mem hp)
  case getAttr o attr => exact .getAttr attr (.same hc)
  case getItem o i => exact .getItem (.same hc.1) (.same hc.2)
  case index o i => exact .index (.same hc.1) (.same hc.2)
  case slice o a b c => exact .slice (.same hc.1) (option_same hc.2.1) (option_same hc.2.2.1) (option_same hc.2.2.2)
  case block ts => exact .block (.same hc)
  case ifChain bs =>
    exact .ifChain (List.forall₂_same.mpr fun b hb => ⟨option_same (hc b hb).1, .same (hc b hb).2⟩)
  case forEach x i s ts => exact .forEach x (.same hc.1) (option_same hc.2.1) (.same hc.2.2)
  case whileLoop c ts => exact .whileLoop (.same hc.1) (.same hc.2)
  case breakLoop => exact .breakLoop
  case continueLoop => exact .continueLoop
  case ret e => exact .ret (option_same hc)
  case global name => exact .global name
  case tryCatch name ts us => exact .tryCatch name (.same hc.1) (.same hc.2)
  case throw e => exact .throw (.same hc)
  case classDef c => exact .classDef h
  case define f => exact .define f.name (.same hc.2) (.same hc.1)
  case lambda ps ts => exact .lambda (.same hc.2) (.same hc.1)
  case matchCase e cs =>
    exact .matchCase (.same hc.1) (List.forall₂_same.mpr fun c hm => ⟨.same (hc.2 c hm).1, .same (hc.2 c hm).2⟩)
  case embedded code => exact .embedded code
  case includeFile path => exact .includeFile path
  case unpack e => exact .unpack (.same hc)
  case keywordUnpack e => exact .keywordUnpack (.same hc)

/-! ## trees that are read from values -/

section
variable {v v' u u' : Value}

theorem Vals.quoted {vs vs' : List Value} (h : B.Vals vs vs') : B.Trees (vs.map .quoted) (vs'.map .quoted) :=
  forall₂_map (fun hv => .quoted hv) h

variable (hv : B.Val v v')
include hv

theorem sim_treeParts (count : Nat) : B.Sim B.Vals (treeParts v count) (treeParts v' count) := by
  refine sim_bind (sim_items hv) fun hs => ?_
  rw [hs.length_eq]
  exact sim_ite (sim_fault rfl) (sim_ite (sim_fault rfl) (sim_pure hs))

theorem sim_treePart (n : Nat) : B.Sim B.Val (treePart v n) (treePart v' n) :=
  sim_element hv (.int n)

theorem sim_treeBody : B.Sim B.Trees (treeBody v) (treeBody v') :=
  sim_bind (sim_items hv) fun hs => sim_pure hs.quoted

theorem sim_treeList : B.Sim B.Trees (treeList v) (treeList v') :=
  sim_then (sim_truth hv) fun _ => sim_ite (sim_treeBody hv) (sim_pure .nil)

theorem sim_treeOption : B.Sim (Option.Rel B.Tree) (treeOption v) (treeOption v') :=
  sim_then (sim_truth hv) fun _ => sim_ite (sim_pure (.some (.quoted hv))) (sim_pure .none)

theorem sim_unknown {α β : Type} {R : α → β → Prop} :
    B.Sim R (plain v >>= fun s => fail (.unknownNode s)) (plain v' >>= fun s => fail (.unknownNode s)) :=
  sim_then (sim_plain hv) fun _ => sim_fault rfl

theorem sim_treeName (hu : B.Val u u') : B.Sim Eq (treeName v u) (treeName v' u') := by
  cases hu with
  | str s => exact sim_pure rfl
  | _ => exact sim_unknown hv

theorem sim_treePairs : B.Sim (List.Forall₂ B.Entry) (treePairs v) (treePairs v') := by
  refine sim_bind (sim_items hv) fun hs => sim_mapM hs fun hp => sim_bind (sim_treeParts hp 2) fun hq => ?_
  rcases hq with _ | ⟨ha, _ | ⟨hb, _ | ⟨hc, hcs⟩⟩⟩
  · exact sim_pure ⟨.null, .null⟩
  · exact sim_pure ⟨.null, .null⟩
  · exact sim_pure ⟨ha, hb⟩
  · exact sim_pure ⟨.null, .null⟩

theorem absentTree_rel : Option.Rel B.Tree (absentTree v) (absentTree v') := by
  cases hv with
  | null => exact .none
  | _ => exact .some (.quoted (by constructor <;> assumption))

theorem conditions_rel : B.Trees (absentTree v).toList (absentTree v').toList := by
  have h := absentTree_rel hv
  revert h
  generalize absentTree v = o
  generalize absentTree v' = o'
  rintro (h | _)
  · exact .cons h .nil
  · exact .nil

theorem sim_treeParams (hu : B.Val u u') :
    B.Sim B.Parameters (treeParams v u) (treeParams v' u') := by
  refine sim_bind (sim_items hu) fun hs => sim_mapM hs fun hp => ?_
  have hq := sim_treeParts hp 2
  cases hp
  case str s => exact sim_pure .receiver
  all_goals
    refine sim_bind hq fun hps => ?_
    rcases hps with _ | ⟨ha, _ | ⟨hb, _ | ⟨hc, hcs⟩⟩⟩
    · exact sim_pure .receiver
    · exact sim_pure .receiver
    · refine sim_then (sim_treeName hv ha) fun name => ?_
      split
      · exact sim_pure (.keywords _)
      · exact sim_pure (.rest _)
      · exact sim_pure (.plain name (absentTree_rel hb))
    · exact sim_pure .receiver

omit hv in
theorem forall₂_flatten {α β : Type} {R : α → β → Prop} {xs : List (List α)} {ys : List (List β)}
    (h : List.Forall₂ (List.Forall₂ R) xs ys) : List.Forall₂ R xs.flatten ys.flatten := by
  induction h with
  | nil => exact .nil
  | cons hx _ ih => exact List.rel_append hx ih

theorem sim_treeBranches :
    B.Sim (List.Forall₂ B.Branch) (treeBranches v) (treeBranches v') := by
  refine sim_bind (sim_items hv) fun hs => ?_
  refine sim_bind (R := List.Forall₂ (List.Forall₂ B.Branch)) (sim_mapM hs fun hb => ?_)
    fun hbs => sim_pure (forall₂_flatten hbs)
  refine sim_bind (sim_treeParts hb 3) fun hq => ?_
  split
  · obtain _ | ⟨⟨⟩, _ | ⟨-, _ | ⟨hc, ⟨⟩⟩⟩⟩ := hq
    exact sim_bind (sim_treeBody hc) fun hts => sim_pure (.cons ⟨.none, hts⟩ .nil)
  · obtain _ | ⟨⟨⟩, _ | ⟨hb, _ | ⟨hc, ⟨⟩⟩⟩⟩ := hq
    exact sim_bind (sim_treeBody hc) fun hts => sim_pure (.cons ⟨.some (.quoted hb), hts⟩ .nil)
  · obtain _ | ⟨⟨⟩, _ | ⟨hb, _ | ⟨hc, ⟨⟩⟩⟩⟩ := hq
    exact sim_bind (sim_treeBody hc) fun hts => sim_pure (.cons ⟨.some (.quoted hb), hts⟩ .nil)
  · rename_i helse hif helif
    split
    · obtain _ | ⟨⟨⟩, _ | ⟨-, _ | ⟨hc, ⟨⟩⟩⟩⟩ := hq
      exact absurd rfl (helse _ _)
    · obtain _ | ⟨⟨⟩, _ | ⟨-, _ | ⟨hc, ⟨⟩⟩⟩⟩ := hq
      exact absurd rfl (hif _ _)
    · obtain _ | ⟨⟨⟩, _ | ⟨-, _ | ⟨hc, ⟨⟩⟩⟩⟩ := hq
      exact absurd rfl (helif _ _)
    · exact sim_pure .nil

theorem sim_treeCases : B.Sim (List.Forall₂ B.Case) (treeCases v) (treeCases v') := by
  refine sim_bind (sim_treePairs hv) fun hs => ?_
  refine sim_bind (R := List.Forall₂ (List.Forall₂ B.Case)) (sim_mapM hs fun hp => ?_)
    fun hcs => sim_pure (forall₂_flatten hcs)
  refine sim_bind (sim_items hp.1) fun {ps ps'} hps => sim_bind (sim_treeBody hp.2) fun hts => ?_
  have helse : ps = [.str "else"] ↔ ps' = [.str "else"] := by
    constructor
    · rintro rfl
      obtain _ | ⟨⟨⟩, ⟨⟩⟩ := hps
      rfl
    · rintro rfl
      obtain _ | ⟨⟨⟩, ⟨⟩⟩ := hps
      rfl
  rw [isEmpty_congr hps]
  refine sim_ite_iff helse (sim_pure (.cons ⟨.nil, hts⟩ .nil)) (sim_ite (sim_pure .nil) ?_)
  exact sim_pure (.cons ⟨hps.quoted, hts⟩ .nil)

theorem sim_treeOperator : B.Sim Eq (treeOperator v) (treeOperator v') := by
  have hother := sim_then (sim_checkKey hv) fun _ =>
    sim_fail (R := (Eq : ArithOp → ArithOp → Prop)) (.missingKey hv)
  cases hv with
  | str s =>
    unfold treeOperator
    dsimp only
    split
    · exact sim_pure rfl
    · exact sim_fail (.missingKey (.str s))
  | _ => exact hother

theorem sim_treeKeywords {vs vs' : List Value} (h : B.Vals vs vs') :
    B.Sim (Tables B.Tree) (treeKeywords v vs) (treeKeywords v' vs') := by
  cases h with
  | nil => exact sim_pure .nil
  | cons hu hs =>
    cases hu with
    | dict hp =>
      refine sim_get fun hw => sim_mapM (hw.dict hp) fun he => ?_
      exact sim_then (sim_treeName hv he.1) fun _ => sim_pure ⟨rfl, .quoted he.2⟩
    | _ => exact sim_fault rfl

theorem sim_readStatementTree (kind : String) :
    B.Sim B.Shape (readStatementTree v kind) (readStatementTree v' kind) := by
  have hpart := sim_treePart hv
  refine sim_bind (sim_items hv) fun hq => ?_
  split
  · exact sim_bind (hpart 1) fun h => sim_bind (sim_treeBody h) fun hts => sim_pure (.block hts)
  · exact sim_pure .breakLoop
  · exact sim_pure .continueLoop
  · exact sim_bind (hpart 1) fun h => sim_bind (sim_treeOption h) fun he => sim_pure (.ret he)
  · exact sim_bind (hpart 1) fun h => sim_then (sim_treeName hv h) fun _ => sim_pure (.global _)
  · exact sim_bind (hpart 1) fun h => sim_bind (sim_treeBranches h) fun hbs => sim_pure (.ifChain hbs)
  · obtain _ | ⟨-, _ | ⟨hc, _ | ⟨hb, ⟨⟩⟩⟩⟩ := hq
    exact sim_bind (sim_treeBody hb) fun hts => sim_pure (.whileLoop (.quoted hc) hts)
  · obtain _ | ⟨-, _ | ⟨hx, _ | ⟨hi, _ | ⟨-, _ | ⟨hb, ⟨⟩⟩⟩⟩⟩⟩ := hq
    refine sim_then (sim_treeName hv hx) fun x => sim_bind (sim_treeBody hb) fun hts => ?_
    exact sim_pure (.forEach x (.quoted hi) .none hts)
  · obtain _ | ⟨-, _ | ⟨he, ⟨⟩⟩⟩ := hq
    exact sim_pure (.throw (.quoted he))
  · obtain _ | ⟨-, _ | ⟨hn, ⟨⟩⟩⟩ := hq
    exact sim_then (sim_treeName hv hn) fun _ => sim_pure (.includeFile _)
  · obtain _ | ⟨-, _ | ⟨hc, ⟨⟩⟩⟩ := hq
    exact sim_then (sim_treeName hv hc) fun _ => sim_pure (.embedded _)
  · obtain _ | ⟨-, _ | ⟨he, _ | ⟨hc, ⟨⟩⟩⟩⟩ := hq
    exact sim_bind (sim_treeCases hc) fun hcs => sim_pure (.matchCase (.quoted he) hcs)
  · obtain _ | ⟨-, _ | ⟨hn, _ | ⟨hb, _ | ⟨hh, ⟨⟩⟩⟩⟩⟩ := hq
    have hname := sim_treeName hv hn
    have hrest (name : Option String) := sim_bind (sim_treeBody hb) fun hts =>
      sim_bind (sim_treeBody hh) fun hus => sim_pure (Shape.tryCatch name hts hus)
    cases hn with
    | null => exact hrest none
    | _ => exact sim_then (sim_map hname fun h => congrArg some h) hrest
  · obtain _ | ⟨-, _ | ⟨hn, _ | ⟨hp, _ | ⟨hb, ⟨⟩⟩⟩⟩⟩ := hq
    refine sim_then (sim_treeName hv hn) fun name => sim_bind (sim_treeParams hv hp) fun hps => ?_
    exact sim_bind (sim_treeBody hb) fun hts => sim_pure (.define name hps hts)
  · -- the other value is of no kind either
    split
    all_goals first
      | exact sim_unknown hv
      | obtain _ | ⟨-, _ | ⟨-, _ | ⟨-, _ | ⟨-, _ | ⟨-, ⟨⟩⟩⟩⟩⟩⟩ := hq <;> grind

theorem sim_readUpdateTree (kind : String) :
    B.Sim B.Shape (readUpdateTree v kind) (readUpdateTree v' kind) := by
  refine sim_bind (sim_items hv) fun hq => ?_
  split
  · obtain _ | ⟨-, _ | ⟨hn, _ | ⟨ho, _ | ⟨he, ⟨⟩⟩⟩⟩⟩ := hq
    refine sim_then (sim_treeName hv hn) fun name => sim_then (sim_treeName hv ho) fun op => ?_
    exact sim_pure (.augAssign name _ (.quoted he))
  · obtain _ | ⟨-, _ | ⟨hx, _ | ⟨ha, _ | ⟨ho, _ | ⟨he, ⟨⟩⟩⟩⟩⟩⟩ := hq
    refine sim_then (sim_treeName hv ha) fun attr => sim_then (sim_treeName hv ho) fun op => ?_
    exact sim_pure (.augAttr attr _ (.quoted hx) (.quoted he))
  · obtain _ | ⟨-, _ | ⟨hx, _ | ⟨hi, _ | ⟨ho, _ | ⟨he, ⟨⟩⟩⟩⟩⟩⟩ := hq
    refine sim_then (sim_treeName hv ho) fun op => ?_
    exact sim_pure (.augIndex _ (.quoted hx) (.quoted hi) (.quoted he))
  · split
    all_goals first
      | exact sim_readStatementTree hv kind
      | obtain _ | ⟨-, _ | ⟨-, _ | ⟨-, _ | ⟨-, _ | ⟨-, ⟨⟩⟩⟩⟩⟩⟩ := hq; grind

theorem sim_readCollectionTree (kind : String) :
    B.Sim B.Shape (readCollectionTree v kind) (readCollectionTree v' kind) := by
  have hpart := sim_treePart hv
  refine sim_bind (sim_items hv) fun hq => ?_
  split
  · exact sim_bind (hpart 1) fun h => sim_bind (sim_treeList h) fun hts => sim_pure (.list hts)
  · refine sim_bind (hpart 1) fun h => sim_then (sim_truth h) fun _ => ?_
    refine sim_ite (sim_bind (sim_treePairs h) fun hps => ?_) (sim_pure (.dict .nil))
    exact sim_pure (.dict (forall₂_map (fun hp => ⟨.quoted hp.1, .quoted hp.2⟩) hps))
  · obtain _ | ⟨-, hr⟩ := hq
    have hl := hr.length_eq
    rcases hr with _ | ⟨hb, _ | ⟨hx, _ | ⟨hi, _ | ⟨hs, _ | ⟨hc, _ | ⟨hz, hzs⟩⟩⟩⟩⟩⟩
    · exact sim_ite (sim_fault rfl) (sim_fault rfl)
    · exact sim_ite (sim_fault rfl) (sim_fault rfl)
    · exact sim_ite (sim_fault rfl) (sim_fault rfl)
    · exact sim_ite (sim_fault rfl) (sim_fault rfl)
    · exact sim_ite (sim_fault rfl) (sim_fault rfl)
    · refine sim_then (sim_treeName hv hx) fun x => ?_
      exact sim_pure (.listComp x (.quoted hb) (.quoted hi) (.quoted hs) (conditions_rel hc))
    · dsimp only
      rw [hl]
      exact sim_ite (sim_fault rfl) (sim_fault rfl)
  · obtain _ | ⟨-, _ | ⟨hk, _ | ⟨he, _ | ⟨hx, _ | ⟨hi, _ | ⟨hc, ⟨⟩⟩⟩⟩⟩⟩⟩ := hq
    refine sim_then (sim_treeName hv hx) fun x => ?_
    exact sim_pure (.dictComp x (.quoted hk) (.quoted he) (.quoted hi) (absentTree_rel hc))
  · obtain _ | ⟨-, _ | ⟨hp, _ | ⟨hb, ⟨⟩⟩⟩⟩ := hq
    refine sim_bind (sim_treeParams hv hp) fun hps => sim_bind (sim_treeBody hb) fun hts => ?_
    exact sim_pure (.lambda hps hts)
  · split
    all_goals first
      | exact sim_readUpdateTree hv kind
      | obtain _ | ⟨-, _ | ⟨-, _ | ⟨-, _ | ⟨-, _ | ⟨-, _ | ⟨-, ⟨⟩⟩⟩⟩⟩⟩⟩ := hq <;> grind

theorem sim_readParts (kind : String) {vs vs' : List Value} (hq : B.Vals vs vs') :
    B.Sim (Option.Rel B.Shape) (readParts v kind vs) (readParts v' kind vs') := by
  have hpart := sim_treePart hv
  unfold readParts
  split
  · exact sim_pure .none
  · exact sim_pure .none
  · refine sim_bind (hpart 1) fun h => ?_
    have hother := sim_then (sim_checkKey h) fun _ => sim_then (sim_plain h) fun s =>
      sim_fault (B := B) (R := Option.Rel B.Shape) (f := .undefined s) rfl
    cases h with
    | str name => exact sim_pure (.some (.var name))
    | _ => exact hother
  · exact sim_bind (hpart 1) fun ha => sim_bind (hpart 2) fun hb => sim_pure (.some (.inside (.quoted ha) (.quoted hb)))
  · exact sim_bind (hpart 1) fun ha => sim_bind (hpart 2) fun hb =>
      sim_pure (.some (.outside (.quoted ha) (.quoted hb)))
  · exact sim_bind (hpart 1) fun ha => sim_bind (hpart 2) fun hb => sim_pure (.some (.and (.quoted ha) (.quoted hb)))
  · exact sim_bind (hpart 1) fun ha => sim_bind (hpart 2) fun hb => sim_pure (.some (.or (.quoted ha) (.quoted hb)))
  · exact sim_bind (hpart 1) fun ha => sim_pure (.some (.not (.quoted ha)))
  · obtain _ | ⟨-, _ | ⟨hc, _ | ⟨ha, _ | ⟨hb, ⟨⟩⟩⟩⟩⟩ := hq
    exact sim_pure (.some (.ternary (.quoted hc) (.quoted ha) (.quoted hb)))
  · obtain _ | ⟨-, _ | ⟨ho, _ | ⟨ha, _ | ⟨hb, ⟨⟩⟩⟩⟩⟩ := hq
    exact sim_then (sim_treeOperator ho) fun op => sim_pure (.some (.binop op (.quoted ha) (.quoted hb)))
  · obtain _ | ⟨-, _ | ⟨ho, _ | ⟨ha, _ | ⟨hb, ⟨⟩⟩⟩⟩⟩ := hq
    exact sim_then (sim_treeName hv ho) fun op => sim_pure (.some (.compare _ (.quoted ha) (.quoted hb)))
  · obtain _ | ⟨-, _ | ⟨hn, _ | ⟨he, ⟨⟩⟩⟩⟩ := hq
    exact sim_then (sim_treeName hv hn) fun name => sim_pure (.some (.assign name (.quoted he)))
  · obtain _ | ⟨-, _ | ⟨ha, _ | ⟨hb, _ | ⟨hc, ⟨⟩⟩⟩⟩⟩ := hq
    exact sim_pure (.some (.setIndex (.quoted ha) (.quoted hb) (.quoted hc)))
  · obtain _ | ⟨-, _ | ⟨ha, _ | ⟨hn, _ | ⟨hb, ⟨⟩⟩⟩⟩⟩ := hq
    exact sim_then (sim_treeName hv hn) fun name => sim_pure (.some (.setAttr name (.quoted ha) (.quoted hb)))
  · refine sim_bind (hpart 1) fun ho => sim_bind (hpart 2) fun hn => sim_then (sim_treeName hv hn) fun name => ?_
    exact sim_pure (.some (.getAttr name (.quoted ho)))
  · obtain _ | ⟨-, _ | ⟨ha, _ | ⟨hb, ⟨⟩⟩⟩⟩ := hq
    exact sim_pure (.some (.index (.quoted ha) (.quoted hb)))
  · obtain _ | ⟨-, _ | ⟨ha, _ | ⟨hb, ⟨⟩⟩⟩⟩ := hq
    exact sim_pure (.some (.getItem (.quoted ha) (.quoted hb)))
  · obtain _ | ⟨-, _ | ⟨ha, _ | ⟨hb, _ | ⟨hc, _ | ⟨hd, ⟨⟩⟩⟩⟩⟩⟩ := hq
    refine sim_bind (sim_treeOption hb) fun hx => sim_bind (sim_treeOption hc) fun hy => ?_
    exact sim_bind (sim_treeOption hd) fun hz => sim_pure (.some (.slice (.quoted ha) hx hy hz))
  · refine sim_bind (hpart 1) fun hc => sim_bind (hpart 2) fun ha => sim_bind (sim_treeBody ha) fun hts => ?_
    refine sim_bind (sim_treeKeywords hv (List.forall₂_drop 3 hq)) fun hk => ?_
    exact sim_pure (.some (.call (.quoted hc) hts hk))
  · exact sim_bind (hpart 1) fun ha => sim_pure (.some (.keywordUnpack (.quoted ha)))
  · exact sim_bind (hpart 1) fun ha => sim_pure (.some (.unpack (.quoted ha)))
  · split
    all_goals first
      | exact sim_bind (sim_readCollectionTree hv kind) fun ht => sim_pure (.some ht)
      | obtain _ | ⟨-, _ | ⟨-, _ | ⟨-, _ | ⟨-, _ | ⟨-, ⟨⟩⟩⟩⟩⟩⟩ := hq <;> grind

/-- **Values that stand for each other are read as trees of one shape.** -/
theorem sim_readTree (kind : String) :
    B.Sim (Option.Rel B.Shape) (readTree v kind) (readTree v' kind) := by
  have hparts := sim_bind (sim_items hv) fun hq => sim_readParts hv kind hq
  unfold readTree
  dsimp only
  split
  · exact sim_bind (sim_treeParts hv _) fun _ => hparts
  · exact hparts

theorem isBareStatement_eq : isBareStatement v = isBareStatement v' := by
  simp only [isBareStatement, hv.eq_str_iff]

theorem sim_unwrapTree : B.Sim B.Val (unwrapTree v) (unwrapTree v') := by
  refine sim_then (sim_length hv) fun n => sim_ite ?_ (sim_pure hv)
  refine sim_bind (sim_treePart hv 0) fun h => ?_
  rw [isBareStatement_eq h]
  exact sim_ite (sim_pure hv) (sim_pure h)

omit hv in
theorem sim_evalQuoted {run run' : Node → Exec Value}
    (hr : ∀ {t t'}, B.Shape t t' → B.Sim B.Val (run t) (run' t')) (hv : B.Val v v') :
    B.Sim B.Val (evalQuoted run v) (evalQuoted run' v') := by
  refine sim_bind (sim_unwrapTree hv) fun hu => sim_bind (sim_treePart hu 0) fun hk => ?_
  cases hk with
  | str kind =>
    refine sim_bind (sim_readTree hu kind) fun ho => ?_
    cases ho with
    | none => exact sim_treePart hu 1
    | some ht => exact hr ht
  | _ => exact sim_unknown hu

end

end Bond

end BraceScript
