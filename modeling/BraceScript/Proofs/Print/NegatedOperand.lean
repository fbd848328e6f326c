import BraceScript.Proofs.Parse.Boundary
import BraceScript.Proofs.Print.ParsePrint

/-!
# What `not` takes after a name

A name may be followed by attributes, brackets and calls in any order. The reader of an operand takes the attributes
that stand first and the brackets after them; the operators take what is left. `not` calls for an operand only, so
what is left is applied to the negation and not to what is negated.

* `Postfix`          an attribute, brackets or a call
* `PostfixTokens`    the tokens that are read as a sequence of them
* `Postfix.others`   the ones that the reader of an operand leaves
* `parse_not`        `not` before a name and what follows it
-/

namespace BraceScript

open Parse

/-- what may follow an operand, with what is read in it -/
inductive Postfix
  | attr (name : String)
  | brackets (inside : Subscript)
  | call (args : List Node) (named : List (String × Node))

namespace Postfix

def isAttr : Postfix → Bool
  | attr _ => true
  | _ => false

def isBrackets : Postfix → Bool
  | brackets _ => true
  | _ => false

/-- the tree of an operand and what follows it; `element` makes the tree of an index -/
def on (element : Node → Node → Node) (node : Node) : Postfix → Node
  | attr name => .getAttr node name
  | brackets (.element index) => element node index
  | brackets (.range start stop step) => .slice node start stop step
  | call args named => .call node args named

/-- the attributes that stand first and the brackets after them -/
def own (fs : List Postfix) : List Postfix :=
  fs.takeWhile isAttr ++ (fs.dropWhile isAttr).takeWhile isBrackets

/-- what stands after them -/
def others (fs : List Postfix) : List Postfix := (fs.dropWhile isAttr).dropWhile isBrackets

/-- the tree of a name with the attributes and brackets that it takes -/
def place (name : String) (fs : List Postfix) : Node := (own fs).foldl (on .getItem) (.var name)

/-- the tree of an operand followed by what its reader left -/
def after (node : Node) (fs : List Postfix) : Node := (others fs).foldl (on .index) node

theorem on_ne_not (element : Node → Node → Node) (he : ∀ a i e, element a i ≠ .not e) (node e : Node) (f : Postfix) :
    on element node f ≠ .not e := by
  rcases f with _ | (_ | _) | _
  case brackets.element => exact he _ _ _
  all_goals nofun

/-- where something is left, the tree is no negation -/
theorem after_ne_not {fs : List Postfix} (h : others fs ≠ []) (node e : Node) : after node fs ≠ .not e := by
  obtain ⟨gs, f, hf⟩ := (List.eq_nil_or_concat (others fs)).resolve_left h
  rw [after, hf, List.concat_eq_append, List.foldl_concat]
  exact on_ne_not .index (fun _ _ _ => Node.noConfusion) _ _ _

end Postfix

/-- the tokens are read as attributes, brackets and calls, one after the other up to the last token -/
inductive PostfixTokens : List Token → List Postfix → Prop
  | nil : PostfixTokens [] []
  | attr {name : String} {ts : List Token} {fs : List Postfix} (h : PostfixTokens ts fs) :
    PostfixTokens (mark "." :: ⟨.ident, name⟩ :: ts) (.attr name :: fs)
  | brackets {inside : Subscript} {ts us : List Token} {fs : List Postfix}
    (hr : subscript (grammar ts.length) ts = .ok (inside, us)) (h : PostfixTokens us fs) :
    PostfixTokens ts (.brackets inside :: fs)
  | call {callee : Node} {args : List Node} {named : List (String × Node)} {ts us : List Token} {fs : List Postfix}
    (hr : arguments (grammar ts.length) callee ts = .ok (.call callee args named, us)) (h : PostfixTokens us fs) :
    PostfixTokens ts (.call args named :: fs)

namespace Parse

open Change

variable {α : Type} {ts us : List Token} {fs : List Postfix} {n m : Nat} {node node' : Node}

/-! ## more depth -/

/-- what is read is read in the same way by a reader that agrees on unchanged tokens -/
theorem Change.Agree.ok_of_eq {R : α → α → Prop} {x y : Parse α} {a : α}
    (h : (ending [] (Or.inl rfl)).Agree R x y) (hR : ∀ a b, R a b → a = b) (hx : x ts = .ok (a, us)) :
    y ts = .ok (a, us) := by
  have ho := h ts ts (near_self ts)
  rw [hx] at ho
  generalize y ts = r at ho ⊢
  cases ho with
  | ok he hn =>
    have hu := hn.like.eq_append
    rw [List.append_nil] at hu
    rw [hR _ _ he, hu]
  | trips ht => exact absurd ht ending_not_trips

theorem eq_of_optionRel {R : α → α → Prop} (hR : ∀ a b, R a b → a = b) {a b : Option α} (h : Option.Rel R a b) :
    a = b := by
  cases h with
  | some h => rw [hR _ _ h]
  | none => rfl

theorem eq_of_subscriptRel {R : Node → Node → Prop} (hR : ∀ a b, R a b → a = b) {a b : Subscript}
    (h : Subscript.Rel R a b) : a = b := by
  cases h with
  | element h => rw [hR _ _ h]
  | range ha hb hc => rw [eq_of_optionRel hR ha, eq_of_optionRel hR hb, eq_of_optionRel hR hc]

theorem subscript_deeper {s : Subscript} (hm : n ≤ m) (h : subscript (grammar n) ts = .ok (s, us)) :
    subscript (grammar m) ts = .ok (s, us) :=
  Change.Agree.ok_of_eq (agree_subscript (grammar_agree _ hm))
    (fun _ _ => eq_of_subscriptRel fun _ _ => Node.Alike.eq_of_eq) h

/-- the arguments are read without a look at what is called -/
theorem arguments_callee {g : Grammar} {a : Node} {args : List Node} {named : List (String × Node)}
    (h : arguments g a ts = .ok (.call a args named, us)) (b : Node) :
    arguments g b ts = .ok (.call b args named, us) := by
  obtain ⟨_, ts₁, h₁, h⟩ := bind_inv h
  obtain ⟨items, ts₂, h₂, h⟩ := bind_inv h
  obtain ⟨_, ts₃, h₃, h⟩ := bind_inv h
  cases h
  rw [arguments, bind_ok h₁, bind_ok h₂, bind_ok h₃]
  rfl

theorem arguments_deeper {a : Node} {args : List Node} {named : List (String × Node)} (hm : n ≤ m)
    (h : arguments (grammar n) a ts = .ok (.call a args named, us)) (b : Node) :
    arguments (grammar m) b ts = .ok (.call b args named, us) := by
  have hv := arguments_callee h (.var "")
  have hd := Change.Agree.ok_of_eq (agree_arguments (grammar_agree _ hm) .var) (fun _ _ => Node.Alike.eq_of_eq) hv
  exact arguments_callee hd b

/-! ## the readers of what follows a name -/

/-- brackets and calls begin with their own mark -/
theorem subscript_opens {g : Grammar} {s : Subscript} (h : subscript g ts = .ok (s, us)) :
    ∃ vs, ts = mark "[" :: vs := by
  obtain ⟨_, vs, h, -⟩ := bind_inv h
  exact ⟨vs, symbol_inv h⟩

theorem arguments_opens {g : Grammar} (h : arguments g node ts = .ok (node', us)) : ∃ vs, ts = mark "(" :: vs := by
  obtain ⟨_, vs, h, -⟩ := bind_inv h
  exact ⟨vs, symbol_inv h⟩

theorem subscript_shorter {s : Subscript} (h : subscript (grammar ts.length) ts = .ok (s, us)) :
    us.length < ts.length := by
  have ht := meets_subscript (grammar_meets Ledger.free ts.length) ts (.free (Nat.lt_succ_self _))
  rw [h] at ht
  cases ht with
  | ok hl => exact hl.2

theorem arguments_shorter {args : List Node} {named : List (String × Node)}
    (h : arguments (grammar ts.length) node ts = .ok (.call node args named, us)) : us.length < ts.length := by
  have hv : (Node.var "").Regular := .of_inner rfl rfl nofun
  have ht := meets_arguments (grammar_meets Ledger.free ts.length) hv ts (.free (Nat.lt_succ_self _))
  rw [arguments_callee h (.var "")] at ht
  cases ht with
  | ok hl => exact hl.2

theorem attributesFrom_forms (h : PostfixTokens ts fs) (node : Node) (fuel : Nat) (hf : ts.length ≤ fuel) :
    ∃ us, attributesFrom (fuel + 1) node ts =
        .ok ((fs.takeWhile Postfix.isAttr).foldl (Postfix.on .getItem) node, us) ∧
      us.length ≤ ts.length ∧ PostfixTokens us (fs.dropWhile Postfix.isAttr) := by
  induction h generalizing fuel node with
  | nil => exact ⟨[], by simp [attributesFrom], Nat.le_refl _, .nil⟩
  | @attr name ts fs h ih =>
    rw [List.length_cons, List.length_cons] at hf ⊢
    obtain ⟨fuel, rfl⟩ : ∃ k, fuel = k + 1 := ⟨fuel - 1, by omega⟩
    obtain ⟨us, hu, hl, hs⟩ := ih (.getAttr node name) fuel (by omega)
    refine ⟨us, ?_, by omega, hs⟩
    rw [List.takeWhile_cons_of_pos rfl, List.foldl_cons, Postfix.on, ← hu, attributesFrom]
    simp
  | brackets hr h =>
    obtain ⟨vs, rfl⟩ := subscript_opens hr
    exact ⟨_, by simp [attributesFrom, Postfix.isAttr], Nat.le_refl _, .brackets hr h⟩
  | call hr h =>
    obtain ⟨vs, rfl⟩ := arguments_opens hr
    exact ⟨_, by simp [attributesFrom, Postfix.isAttr], Nat.le_refl _, .call hr h⟩

theorem elementsFrom_step {g : Grammar} {vs : List Token} {s : Subscript}
    (h : subscript g (mark "[" :: vs) = .ok (s, us)) (fuel : Nat) (node : Node) :
    elementsFrom g (fuel + 1) node (mark "[" :: vs) =
      elementsFrom g fuel (Postfix.on .getItem node (.brackets s)) us := by
  rw [elementsFrom]
  cases s <;> simp_all [Postfix.on]

theorem elementsFrom_forms (h : PostfixTokens ts fs) (node : Node) (hn : ts.length ≤ n) (fuel : Nat)
    (hf : ts.length ≤ fuel) :
    ∃ us, elementsFrom (grammar n) (fuel + 1) node ts =
        .ok ((fs.takeWhile Postfix.isBrackets).foldl (Postfix.on .getItem) node, us) ∧
      us.length ≤ ts.length ∧ PostfixTokens us (fs.dropWhile Postfix.isBrackets) := by
  induction h generalizing fuel node with
  | nil => exact ⟨[], by simp [elementsFrom], Nat.le_refl _, .nil⟩
  | attr h => exact ⟨_, by simp [elementsFrom, Postfix.isBrackets], Nat.le_refl _, .attr h⟩
  | @brackets s ts us fs hr h ih =>
    have hs := subscript_shorter hr
    obtain ⟨fuel, rfl⟩ : ∃ k, fuel = k + 1 := ⟨fuel - 1, by omega⟩
    obtain ⟨ws, hu, hl, hw⟩ := ih (Postfix.on .getItem node (.brackets s)) (by omega) fuel (by omega)
    obtain ⟨vs, rfl⟩ := subscript_opens hr
    refine ⟨ws, ?_, by omega, hw⟩
    rw [List.takeWhile_cons_of_pos rfl, List.foldl_cons, ← hu]
    exact elementsFrom_step (subscript_deeper hn hr) _ _
  | call hr h =>
    obtain ⟨vs, rfl⟩ := arguments_opens hr
    exact ⟨_, by simp [elementsFrom, Postfix.isBrackets], Nat.le_refl _, .call hr h⟩

/-- the operators after an operand take whatever is left -/
theorem operatorsFrom_forms (h : PostfixTokens ts fs) (node : Node) (hn : ts.length ≤ n) (fuel : Nat)
    (hf : ts.length ≤ fuel) :
    operatorsFrom (grammar n) 0 (fuel + 1) node ts = .ok (fs.foldl (Postfix.on .index) node, []) := by
  induction h generalizing fuel node with
  | nil => exact operatorsFrom_ends _ 0 fuel node ends_nil
  | @attr name ts fs h ih =>
    rw [List.length_cons, List.length_cons] at hf hn
    obtain ⟨fuel, rfl⟩ : ∃ k, fuel = k + 1 := ⟨fuel - 1, by omega⟩
    exact (operatorsFrom_extend _ (extend_attr node name)).trans (ih _ (by omega) fuel (by omega))
  | @brackets s ts us fs hr h ih =>
    have hs := subscript_shorter hr
    have hr' := subscript_deeper hn hr
    obtain ⟨fuel, rfl⟩ : ∃ k, fuel = k + 1 := ⟨fuel - 1, by omega⟩
    obtain ⟨vs, rfl⟩ := subscript_opens hr
    have hx : extend (grammar n) 0 node (mark "[") (mark "[" :: vs) =
        .ok (some (Postfix.on .index node (.brackets s), true), us) := by
      cases s <;> simp_all [extend, Postfix.on]
    exact (operatorsFrom_extend _ hx).trans (ih _ (by omega) fuel (by omega))
  | @call callee args named ts us fs hr h ih =>
    have hs := arguments_shorter hr
    have hr' := arguments_deeper hn hr node
    obtain ⟨fuel, rfl⟩ : ∃ k, fuel = k + 1 := ⟨fuel - 1, by omega⟩
    obtain ⟨vs, rfl⟩ := arguments_opens hr
    have hx : extend (grammar n) 0 node (mark "(") (mark "(" :: vs) =
        .ok (some (.call node args named, true), us) := by
      simp_all [extend]
    exact (operatorsFrom_extend _ hx).trans (ih _ (by omega) fuel (by omega))

theorem unassigned_forms (h : PostfixTokens ts fs) : ∀ t ∈ ts.head?, t ≠ ⟨.op, "="⟩ ∧ t.kind ≠ .augAssign := by
  cases h with
  | nil => simp
  | attr => simp
  | brackets hr =>
    obtain ⟨vs, rfl⟩ := subscript_opens hr
    simp
  | call hr =>
    obtain ⟨vs, rfl⟩ := arguments_opens hr
    simp

/-- a name as an operand takes the attributes that stand first and the brackets after them -/
theorem primary_forms (h : PostfixTokens ts fs) (name : String) (hn : ts.length ≤ n) :
    ∃ us, primary (grammar n) (⟨.ident, name⟩ :: ts) = .ok (Postfix.place name fs, us) ∧
      us.length ≤ ts.length ∧ PostfixTokens us (Postfix.others fs) := by
  obtain ⟨us, ha, hl, hs⟩ := attributesFrom_forms h (.var name) _ (Nat.le_refl _)
  obtain ⟨vs, he, hl', hs'⟩ := elementsFrom_forms hs _ (by omega : us.length ≤ n) _ (Nat.le_refl _)
  rw [← List.foldl_append] at he
  refine ⟨vs, ?_, by omega, hs'⟩
  rw [primary_ident]
  exact nameOrAssignment_ends ha he (unassigned_forms hs')

/-- an expression of an operand and what its reader leaves -/
theorem expression_forms (hp : primary (grammar n) ts = .ok (node, us)) (hs : PostfixTokens us (Postfix.others fs))
    (hn : us.length ≤ n) : expression (grammar n) 0 ts = .ok (Postfix.after node fs, []) := by
  simp only [expression, bind_run, hp, get_run]
  exact operatorsFrom_forms hs node hn _ (Nat.le_refl _)

theorem primary_not_name {name : String} (hp : primary (grammar n) (⟨.ident, name⟩ :: ts) = .ok (node, us)) :
    primary (grammar (n + 1)) (reserved "not" :: ⟨.ident, name⟩ :: ts) = .ok (.not node, us) := by
  have hg : (grammar (n + 1)).primary (⟨.ident, name⟩ :: ts) = .ok (node, us) := hp
  simp [primary, operand, notOperand, hg]

/-! ## programs -/

/-- the word of a statement is reserved, or it is `include` -/
theorem statement_name_error {w : String} (hw : w ∈ statementWords) (hi : w ≠ "include") (g : Grammar)
    (ts : List Token) : ∃ e, statement g (⟨.ident, w⟩ :: ts) = .error e := by
  simp only [statementWords, List.mem_cons, List.not_mem_nil, or_false] at hw
  rcases hw with rfl | rfl | rfl | rfl | rfl | rfl | rfl | rfl | rfl | rfl | rfl | rfl | rfl | rfl
  case inr.inr.inr.inr.inr.inr.inr.inr.inr.inr.inr.inl => exact absurd rfl hi
  all_goals exact ⟨_, rfl⟩

/-- an `include` that is followed by neither a text nor parentheses cannot be read -/
theorem statement_include_error (h : PostfixTokens ts fs) (ho : Postfix.others fs = []) (g : Grammar) :
    ∃ e, statement g (⟨.ident, "include"⟩ :: ts) = .error e := by
  cases h with
  | nil => exact ⟨_, rfl⟩
  | attr => exact ⟨_, rfl⟩
  | brackets hr =>
    obtain ⟨vs, rfl⟩ := subscript_opens hr
    exact ⟨_, rfl⟩
  | call hr => simp [Postfix.others, Postfix.isAttr, Postfix.isBrackets] at ho

theorem parse_statement_error {t : Token} {e : ParseError}
    (h : statement (grammar (ts.length + 2)) (t :: ts) = .error e) : parse (t :: ts) = .error e := by
  rw [parse_eq]
  show (statementsFrom (grammar (ts.length + 2)) none (ts.length + 2) (t :: ts)).map Prod.fst = .error e
  rw [statementsFrom_more, bind_error h]
  rfl

/-- a program that is a name and what follows it, apart from a call of `include` -/
theorem free_of_parse (h : PostfixTokens ts fs) {name : String} {body : List Node}
    (hb : parse (⟨.ident, name⟩ :: ts) = .ok body) (hi : name ≠ "include" ∨ Postfix.others fs = []) :
    name ∉ statementWords := by
  intro hw
  obtain ⟨e, he⟩ : ∃ e, statement (grammar (ts.length + 2)) (⟨.ident, name⟩ :: ts) = .error e := by
    by_cases hn : name = "include"
    · subst hn
      exact statement_include_error h (hi.resolve_left fun hne => hne rfl) _
    · exact statement_name_error hw hn _ ts
  rw [parse_statement_error he] at hb
  cases hb

theorem parse_forms (h : PostfixTokens ts fs) {name : String} (hn : name ∉ statementWords) :
    parse (⟨.ident, name⟩ :: ts) = .ok [Postfix.after (Postfix.place name fs) fs] := by
  obtain ⟨us, hp, hl, hs⟩ := primary_forms h name (Nat.le_add_right ts.length 2)
  exact parse_expression hn (expression_forms hp hs (by omega))

end Parse

/-- **`not` takes the attributes and brackets of a name and nothing after them.** What is left is applied to the
negation, so that `not` applies to the whole operand if and only if nothing is left. -/
theorem parse_not {name : String} {ts : List Token} {fs : List Postfix} {t : Node} (h : PostfixTokens ts fs)
    (ht : parse (⟨.ident, name⟩ :: ts) = .ok [t]) :
    parse (reserved "not" :: ⟨.ident, name⟩ :: ts) = .ok [Postfix.after (.not (Postfix.place name fs)) fs] ∧
      (name ≠ "include" → t = Postfix.after (Postfix.place name fs) fs) ∧
      (parse (reserved "not" :: ⟨.ident, name⟩ :: ts) = .ok [.not t] ↔ Postfix.others fs = []) := by
  have hnot : parse (reserved "not" :: ⟨.ident, name⟩ :: ts) =
      .ok [Postfix.after (.not (Postfix.place name fs)) fs] := by
    obtain ⟨us, hp, hl, hs⟩ := primary_forms h name (Nat.le_add_right ts.length 2)
    have hx := expression_forms (primary_not_name hp) hs (by omega)
    exact parse_expression (by decide) hx
  have htree : name ≠ "include" ∨ Postfix.others fs = [] → t = Postfix.after (Postfix.place name fs) fs := by
    intro hi
    rw [parse_forms h (free_of_parse h ht hi)] at ht
    injection ht with ht
    exact (List.cons.inj ht).1.symm
  refine ⟨hnot, fun hi => htree (Or.inl hi), ?_⟩
  rw [hnot]
  constructor
  · intro he
    by_contra ho
    injection he with he
    exact Postfix.after_ne_not ho _ _ (List.cons.inj he).1
  · intro ho
    rw [htree (Or.inr ho), Postfix.after, Postfix.after, ho]
    rfl

/-- the negation of a call, `f()`, is read as a call of the negation of `f` -/
theorem parse_not_call :
    parse (reserved "not" :: ⟨.ident, "f"⟩ :: parens []) = .ok [.call (.not (.var "f")) [] []] ∧
      parse (reserved "not" :: ⟨.ident, "f"⟩ :: parens []) ≠ .ok [.not (.call (.var "f") [] [])] := by
  have h : PostfixTokens (parens []) [.call [] []] :=
    @PostfixTokens.call (.var "f") [] [] _ _ _ rfl .nil
  have ht : parse (⟨.ident, "f"⟩ :: parens []) = .ok [.call (.var "f") [] []] := by rfl
  obtain ⟨hn, -, hiff⟩ := parse_not h ht
  exact ⟨hn, fun he => List.cons_ne_nil _ _ (hiff.mp he)⟩

end BraceScript
