import BraceScript.Proofs.Print.Pieces

/-!
# Operators, subscripts and calls

What the readers do after an operand, on the written form of what follows it there, and the reader of
function literals.

* `extend_binop`, `extend_compare`, ...   the operators
* `subscript_element`, `subscript_range`  the subscripts
* `extend_call`       a call with its arguments
* `primary_lambda`    a function literal with its parameters
-/

namespace BraceScript

namespace Parse

variable {g : Grammar} {rest : List Token} {left : List Token} {e r : Expr} {keywords : List (Word × Expr)}

/-! ## operators -/

theorem ofText_text (op : ArithOp) : ArithOp.ofText? op.text = some op := by
  cases op <;> rfl

theorem text_ne_word (op : ArithOp) :
    op.text ≠ "in" ∧ op.text ≠ "not" ∧ op.text ≠ "and" ∧ op.text ≠ "or" := by
  cases op <;> decide

theorem extend_binop (op : ArithOp) (left : Node) (hr : Reads g r) (h : Ends rest) :
    extend g 0 left ⟨.op, op.text⟩ (⟨.op, op.text⟩ :: (r.wrapped ++ rest)) =
      .ok (some (.binop op left r.node, true), rest) := by
  have hx := hr (strength op + 1) rest h
  simp [extend, text_ne_word op, ofText_text op, hx]

theorem extend_compare {op : CompareOp} (ho : ∀ s, op ≠ .other s) (left : Node) (hr : Reads g r)
    (h : Ends rest) : extend g 0 left ⟨.compare, op.text⟩ (⟨.compare, op.text⟩ :: (r.wrapped ++ rest)) =
      .ok (some (.compare op left r.node, true), rest) := by
  have hx := hr 0 rest h
  cases op with
  | other s => exact absurd rfl (ho s)
  | _ => simp [extend, CompareOp.text, CompareOp.ofText, hx]

theorem extend_inside (left : Node) (hr : Reads g r) (h : Ends rest) :
    extend g 0 left (reserved "in") (reserved "in" :: (r.wrapped ++ rest)) =
      .ok (some (.inside left r.node, false), rest) := by
  simp [extend, hr 0 rest h]

theorem extend_outside (left : Node) (hr : Reads g r) (h : Ends rest) :
    extend g 0 left (reserved "not") (reserved "not" :: reserved "in" :: (r.wrapped ++ rest)) =
      .ok (some (.outside left r.node, false), rest) := by
  simp [extend, hr 0 rest h]

theorem extend_and (left : Node) (hr : Reads g r) (h : Ends rest) :
    extend g 0 left (reserved "and") (reserved "and" :: (r.wrapped ++ rest)) =
      .ok (some (.and left r.node, false), rest) := by
  simp [extend, hr 0 rest h]

theorem extend_or (left : Node) (hr : Reads g r) (h : Ends rest) :
    extend g 0 left (reserved "or") (reserved "or" :: (r.wrapped ++ rest)) =
      .ok (some (.or left r.node, false), rest) := by
  simp [extend, hr 0 rest h]

theorem extend_ternary (condition : Node) {y n : Expr} (hy : Reads g y) (hn : Reads g n)
    (h : Ends rest) :
    extend g 0 condition (mark "?") (mark "?" :: (y.wrapped ++ mark ":" :: (n.wrapped ++ rest))) =
      .ok (some (.ternary condition y.node n.node, true), rest) := by
  have hx := hy 0 (mark ":" :: (n.wrapped ++ rest)) (ends_cons _ (by decide))
  simp_all [extend, conditional, hn 0 rest h]

theorem extend_attr (object : Node) (attr : String) :
    extend g 0 object (mark ".") (mark "." :: ⟨.ident, attr⟩ :: rest) =
      .ok (some (.getAttr object attr, true), rest) := by
  cases object <;> simp [extend, afterPoint]

/-! ## subscripts -/

theorem unlessAt_wrapped (he : Reads g e) (stops : List String) (hs : ∀ s ∈ stops, s ∈ reservedTexts ∧ s ≠ "(")
    (h : Ends rest) : unlessAt g stops (e.wrapped ++ rest) = .ok (some e.node, rest) := by
  obtain ⟨t, ts, ht, ho, _⟩ := e.wrapped_opens
  have hne : t.text ∉ stops := fun hm => ho.ne (hs _ hm).1 (hs _ hm).2 rfl
  have hx := he 0 rest h
  rw [ht] at hx ⊢
  simp_all [unlessAt]

theorem subscript_element {i : Expr} (hi : Reads g i) (rest : List Token) :
    subscript g (mark "[" :: (i.wrapped ++ mark "]" :: rest)) = .ok (.element i.node, rest) := by
  have hx := unlessAt_wrapped hi [":"] (by decide) (ends_cons (t := mark "]") rest (by decide))
  simp_all [subscript]

/-- a part of a slice before one of the marks that end it -/
theorem unlessAt_option {o : Option Expr} (ho : ∀ e ∈ o, Reads g e) (stops : List String)
    (hs : ∀ s ∈ stops, s ∈ reservedTexts ∧ s ≠ "(") {s : String} (hm : s ∈ stops)
    (hc : mark s ∈ closers) (rest : List Token) :
    unlessAt g stops (Expr.optionTokens o ++ mark s :: rest) =
      .ok (Expr.optionNode o, mark s :: rest) := by
  cases o with
  | none => simp [unlessAt, Expr.optionTokens, Expr.optionNode, hm]
  | some e => exact unlessAt_wrapped (ho e rfl) stops hs (ends_cons rest hc)

theorem subscriptStep_option {o : Option Expr} (ho : ∀ e ∈ o, Reads g e) (rest : List Token) :
    subscriptStep g (Expr.stepTokens o ++ mark "]" :: rest) =
      .ok (Expr.optionNode o, mark "]" :: rest) := by
  cases o with
  | none => simp [subscriptStep, Expr.stepTokens, Expr.optionNode]
  | some e =>
    have hx := unlessAt_wrapped (ho e rfl) ["]"] (by decide)
      (ends_cons (t := mark "]") rest (by decide))
    simp_all [subscriptStep, Expr.stepTokens, Expr.optionNode, Expr.wrapped]

theorem subscript_range {start stop step : Option Expr} (h1 : ∀ e ∈ start, Reads g e)
    (h2 : ∀ e ∈ stop, Reads g e) (h3 : ∀ e ∈ step, Reads g e) (rest : List Token) :
    subscript g (mark "[" :: (Expr.optionTokens start ++ mark ":" :: (Expr.optionTokens stop ++
      (Expr.stepTokens step ++ mark "]" :: rest)))) =
      .ok (.range (Expr.optionNode start) (Expr.optionNode stop) (Expr.optionNode step), rest) := by
  have hx1 := unlessAt_option h1 [":"] (by decide) (s := ":") (by decide) (by decide)
    (Expr.optionTokens stop ++ (Expr.stepTokens step ++ mark "]" :: rest))
  have hx2 : unlessAt g [":", "]"]
      (Expr.optionTokens stop ++ (Expr.stepTokens step ++ mark "]" :: rest)) =
      .ok (Expr.optionNode stop, Expr.stepTokens step ++ mark "]" :: rest) := by
    cases step with
    | none =>
      exact unlessAt_option h2 [":", "]"] (by decide) (s := "]") (by decide) (by decide) rest
    | some e =>
      exact unlessAt_option h2 [":", "]"] (by decide) (s := ":") (by decide) (by decide) _
  have hx3 := subscriptStep_option h3 rest
  simp_all [subscript]

def Subscript.node (object : Node) : Subscript → Node
  | element i => .index object i
  | range start stop step => .slice object start stop step

theorem extend_subscript (object : Node) {ts : List Token} {s : Subscript}
    (hs : subscript g (mark "[" :: ts) = .ok (s, rest)) :
    extend g 0 object (mark "[") (mark "[" :: ts) = .ok (some (s.node object, true), rest) := by
  rw [mark] at hs
  cases s with
  | element i => simp [extend, hs, Subscript.node]
  | range start stop step => simp [extend, hs, Subscript.node]

/-! ## arguments and parameters -/

/-- what may stand after an argument or a parameter, and what is left of it: a comma is taken -/
def Separates (rest left : List Token) : Prop :=
  (rest = mark "," :: left) ∨ (rest = left ∧ ∃ us, left = mark ")" :: us)

theorem Separates.ends {rest : List Token} (h : Separates rest left) : Ends rest := by
  rcases h with rfl | ⟨rfl, us, rfl⟩
  · exact ends_cons left (by decide)
  · exact ends_cons us (by decide)

theorem Separates.comma {rest : List Token} (h : Separates rest left) :
    optionalSymbol "," rest = .ok ((), left) := by
  rcases h with rfl | ⟨rfl, us, rfl⟩
  · exact optionalSymbol_here "," left
  · exact optionalSymbol_away (by decide) us

theorem Separates.head {rest : List Token} (h : Separates rest left) :
    ∃ t ts, rest = t :: ts ∧ t.text ≠ "=" := by
  rcases h with rfl | ⟨rfl, us, rfl⟩
  · exact ⟨_, _, rfl, by decide⟩
  · exact ⟨_, _, rfl, by decide⟩

theorem takesPiece_of {α : Type} {step : Parse α} {piece : List Token} {a : α}
    (hs : ∀ rest left, Separates rest left → step (piece ++ rest) = .ok (a, left))
    (hf : ∃ t ts, piece = t :: ts ∧ t.text ≠ ")") : TakesPiece step ")" piece a :=
  ⟨fun rest => hs _ rest (Or.inl rfl), fun rest => hs _ _ (Or.inr ⟨rfl, rest, rfl⟩), hf⟩

theorem argument_positional (he : Reads g e) (p : Passing) {rest : List Token} (h : Separates rest left) :
    argument g (p.tokens ++ e.wrapped ++ rest) = .ok (.positional (p.node e.node), left) := by
  have hx := he 0 rest h.ends
  have hc := h.comma
  cases p with
  | plain =>
    obtain ⟨u, us, hu, ho, hi⟩ := e.wrapped_opens
    obtain ⟨t, ts, rfl, ht⟩ := h.head
    have h1 : u.text ≠ "**" := ho.ne (by decide) (by decide)
    have h2 : u.text ≠ "*" := ho.ne (by decide) (by decide)
    -- a name alone is followed by a separator, so it is not the keyword of an argument
    have hn : ((some u.kind == some Token.Kind.ident) &&
        ((us ++ t :: ts).head?.map Token.text == some "=")) = false := by
      by_cases hk : u.kind = .ident
      · simp [hi hk, ht]
      · simp [hk]
    rw [hu, List.cons_append] at hx
    simp only [argument, Passing.tokens, hu, List.nil_append, List.cons_append, bind_run,
      atText_run, peek_run, peekSecond_run, List.head?_cons, List.tail_cons, Option.map_some, hn,
      ite_run]
    simp [h1, h2, hx, hc, Passing.node]
  | unpack => simp [argument, Passing.tokens, Passing.node, hx, hc]
  | keywordUnpack => simp [argument, Passing.tokens, Passing.node, hx, hc]

theorem argument_named (he : Reads g e) (name : Word) {rest : List Token} (h : Separates rest left) :
    argument g (⟨.ident, name.text⟩ :: ⟨.op, "="⟩ :: (e.wrapped ++ rest)) =
      .ok (.named name.text e.node, left) := by
  have h1 : name.text ≠ "**" := name.ne (by decide)
  have h2 : name.text ≠ "*" := name.ne (by decide)
  simp [argument, h1, h2, he 0 rest h.ends, h.comma]

theorem param_plain (name : Word) {rest : List Token} (h : Separates rest left) :
    param g (⟨.ident, name.text⟩ :: rest) = .ok (.plain name.text none, left) := by
  have h1 : name.text ≠ "**" := name.ne (by decide)
  have h2 : name.text ≠ "*" := name.ne (by decide)
  have hc := h.comma
  obtain ⟨t, ts, rfl, ht⟩ := h.head
  simp [param, h1, h2, ht, hc]

theorem param_default (he : Reads g e) (name : Word) {rest : List Token} (h : Separates rest left) :
    param g (⟨.ident, name.text⟩ :: ⟨.op, "="⟩ :: (e.wrapped ++ rest)) =
      .ok (.plain name.text (some e.node), left) := by
  have h1 : name.text ≠ "**" := name.ne (by decide)
  have h2 : name.text ≠ "*" := name.ne (by decide)
  simp [param, h1, h2, he 0 rest h.ends, h.comma]

def argumentItems (args : List (Passing × Expr)) (keywords : List (Word × Expr)) : List Argument :=
  args.map (fun p => .positional (p.1.node p.2.node)) ++
    keywords.map fun p => .named p.1.text p.2.node

theorem takesPieces_arguments {args : List (Passing × Expr)} (ha : ∀ p ∈ args, Reads g p.2)
    (hk : ∀ p ∈ keywords, Reads g p.2) : List.Forall₂ (TakesPiece (argument g) ")")
      (Expr.argTokens args ++ Expr.keywordTokens keywords) (argumentItems args keywords) := by
  induction args with
  | nil =>
    induction keywords with
    | nil => exact List.Forall₂.nil
    | cons p keywords ih =>
      obtain ⟨name, e⟩ := p
      have he : Reads g e := hk (name, e) List.mem_cons_self
      have hp : TakesPiece (argument g) ")" (⟨.ident, name.text⟩ :: ⟨.op, "="⟩ :: e.wrapped)
          (.named name.text e.node) :=
        takesPiece_of (fun _ _ h => argument_named he name h) ⟨_, _, rfl, name.ne (by decide)⟩
      exact List.Forall₂.cons hp (ih fun q hq => hk q (List.mem_cons_of_mem _ hq))
  | cons p args ih =>
    obtain ⟨p, e⟩ := p
    have he : Reads g e := ha (p, e) List.mem_cons_self
    have hf : ∃ t ts, p.tokens ++ e.wrapped = t :: ts ∧ t.text ≠ ")" := by
      obtain ⟨t, ts, ht, ho, _⟩ := e.wrapped_opens
      cases p with
      | plain => exact ⟨t, ts, ht, ho.ne (by decide) (by decide)⟩
      | unpack => exact ⟨_, _, rfl, by decide⟩
      | keywordUnpack => exact ⟨_, _, rfl, by decide⟩
    have hp : TakesPiece (argument g) ")" (p.tokens ++ e.wrapped) (.positional (p.node e.node)) :=
      takesPiece_of (fun _ _ h => argument_positional he p h) hf
    exact List.Forall₂.cons hp (ih fun q hq => ha q (List.mem_cons_of_mem _ hq))

theorem positionals_items (args : List (Passing × Expr)) (keywords : List (Word × Expr)) :
    positionals (argumentItems args keywords) = Expr.argNodes args := by
  induction args with
  | nil =>
    induction keywords with
    | nil => rfl
    | cons p keywords ih => exact ih
  | cons p args ih =>
    show p.1.node p.2.node :: positionals (argumentItems args keywords) = _
    rw [ih]
    rfl

theorem putNamed_fresh {name : String} (value : Node) {acc : List (String × Node)}
    (h : name ∉ acc.map Prod.fst) : putNamed name value acc = acc ++ [(name, value)] := by
  induction acc with
  | nil => rfl
  | cons p acc ih =>
    rw [List.map_cons, List.mem_cons, not_or] at h
    rw [putNamed, if_neg (Ne.symm h.1), ih h.2, List.cons_append]

theorem nameds_keywords {acc : List (String × Node)} (hd : (keywords.map fun p => p.1.text).Nodup)
    (ha : ∀ p ∈ keywords, p.1.text ∉ acc.map Prod.fst) :
    nameds acc (argumentItems [] keywords) = acc ++ Expr.keywordNodes keywords := by
  induction keywords generalizing acc with
  | nil => exact (List.append_nil acc).symm
  | cons p keywords ih =>
    rw [List.map_cons, List.nodup_cons] at hd
    have hp := ha p List.mem_cons_self
    show nameds (putNamed p.1.text p.2.node acc) (argumentItems [] keywords) = _
    rw [putNamed_fresh _ hp, ih hd.2]
    · rw [List.append_assoc]
      rfl
    · intro q hq
      rw [List.map_append, List.mem_append, not_or]
      refine ⟨ha q (List.mem_cons_of_mem _ hq), ?_⟩
      intro hm
      have e : q.1.text = p.1.text := List.mem_singleton.mp hm
      exact hd.1 (List.mem_map.mpr ⟨q, hq, e⟩)

theorem nameds_items (args : List (Passing × Expr)) (hd : (keywords.map fun p => p.1.text).Nodup) :
    nameds [] (argumentItems args keywords) = Expr.keywordNodes keywords := by
  induction args with
  | nil => exact nameds_keywords hd fun p _ => List.not_mem_nil
  | cons p args ih => exact ih

theorem extend_call (callee : Node) {args : List (Passing × Expr)} (ha : ∀ p ∈ args, Reads g p.2)
    (hk : ∀ p ∈ keywords, Reads g p.2) (hd : (keywords.map fun p => p.1.text).Nodup) (rest : List Token) :
    extend g 0 callee (mark "(")
      (parens (commas (Expr.argTokens args ++ Expr.keywordTokens keywords)) ++ rest) =
      .ok (some (.call callee (Expr.argNodes args) (Expr.keywordNodes keywords), true), rest) := by
  have hu := untilText_commas (takesPieces_arguments ha hk) rest
  rw [mark] at hu
  simp [extend, arguments, parens, hu, positionals_items, nameds_items args hd]

theorem takesPieces_params {params : List (Word × Option Expr)}
    (hp : ∀ p ∈ params, ∀ e ∈ p.2, Reads g e) :
    List.Forall₂ (TakesPiece (param g) ")") (Expr.paramTokens params) (Expr.paramNodes params) := by
  induction params with
  | nil => exact List.Forall₂.nil
  | cons p params ih =>
    have ih' := ih fun q hq => hp q (List.mem_cons_of_mem _ hq)
    obtain ⟨name, value⟩ := p
    cases value with
    | none =>
      have ht : TakesPiece (param g) ")" [⟨.ident, name.text⟩] (.plain name.text none) :=
        takesPiece_of (fun _ _ h => param_plain name h) ⟨_, _, rfl, name.ne (by decide)⟩
      exact List.Forall₂.cons ht ih'
    | some e =>
      have he : Reads g e := hp (name, some e) List.mem_cons_self e rfl
      have ht : TakesPiece (param g) ")" (⟨.ident, name.text⟩ :: ⟨.op, "="⟩ :: e.wrapped)
          (.plain name.text (some e.node)) :=
        takesPiece_of (fun _ _ h => param_default he name h) ⟨_, _, rfl, name.ne (by decide)⟩
      exact List.Forall₂.cons ht ih'

/-! ## functions -/

theorem block_single {n : Nat} (he : Reads (grammar (n + 1)) e) (rest : List Token) :
    (grammar (n + 1)).block (e.wrapped ++ mark "\x7d" :: rest) =
      .ok ([e.node], mark "\x7d" :: rest) := by
  obtain ⟨t, ts, ht, ho, _⟩ := e.wrapped_opens
  have hx : expression (grammar n) 0 (e.wrapped ++ mark "\x7d" :: rest) =
      .ok (e.node, mark "\x7d" :: rest) := he 0 _ (ends_cons rest (by decide))
  have hne : t.text ≠ "\x7d" := ho.ne (by decide) (by decide)
  have hw : t.text ∉ statementWords := by
    intro hm
    have hr : ∀ s ∈ statementWords, s ∈ reservedTexts ∧ s ≠ "(" := by decide
    exact ho.ne (hr _ hm).1 (hr _ hm).2 rfl
  rw [ht, List.cons_append] at hx ⊢
  rw [← statement_expression _ _ _ hw] at hx
  have hc : some "\x7d" ≠ some t.text := fun e => hne (Option.some.inj e).symm
  exact statementsFrom_step hc hx (statementsFrom_close _ _ _ _)

theorem primary_lambda {n : Nat} {params : List (Word × Option Expr)} {b : Expr}
    (hp : ∀ p ∈ params, ∀ e ∈ p.2, Reads (grammar (n + 1)) e) (hb : Reads (grammar (n + 1)) b)
    (rest : List Token) :
    primary (grammar (n + 1)) ((Expr.lambda params b).print ++ rest) =
      .ok ((Expr.lambda params b).node, rest) := by
  have hu := untilText_commas (takesPieces_params hp) (mark "\x7b" :: (b.wrapped ++ mark "\x7d" :: rest))
  have hx := block_single hb rest
  rw [mark] at hu hx
  simp only [Expr.wrapped, mark] at hu hx
  simp [primary, operand, lambda, Parse.params, braces, Expr.print, Expr.node, parens, hu, hx]

end Parse

end BraceScript
