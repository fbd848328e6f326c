import BraceScript.Proofs.Print.Collections
import BraceScript.Proofs.Print.Operators

/-!
# Reading back written expressions

The tokens of an expression, written with every compound part in parentheses, read back as its tree.
Readers take a token before they call each other, so the number of tokens of an expression is a depth of
nesting at which it can be read, and the induction over expressions carries that bound.

* `parsed_print`      readers of enough depth take what `Expr.print` writes
* `parse_print`       so does the reader of programs
* `parse_num_long`    a literal with too many digits is an error
-/

namespace BraceScript

namespace Parse

variable {g : Grammar} {rest : List Token} {n : Nat} {e : Expr} {t : Token}

/-! ## expressions -/

theorem print_le_wrapped (e : Expr) : e.print.length ≤ e.wrapped.length := by
  cases h : e.isAtom with
  | true => simp [Expr.wrapped, Expr.enclose, h]
  | false =>
    rw [Expr.wrapped_compound h]
    simp [parens]
    omega

/-- readers of enough depth take the expression written bare -/
def Parsed (e : Expr) : Prop := ∀ n, e.print.length ≤ n → ReadsBare (grammar n) e

theorem Parsed.reads (hp : Parsed e) (hs : e.Sound) (hl : e.wrapped.length ≤ n) : Reads (grammar n) e := by
  obtain ⟨t, ts, ht, _⟩ := e.wrapped_opens
  obtain ⟨m, rfl⟩ : ∃ m, n = m + 1 := ⟨n - 1, by rw [ht, List.length_cons] at hl; omega⟩
  refine reads_of_bare hs fun ha => hp m ?_
  rw [Expr.wrapped_compound ha] at hl
  simp [parens] at hl
  omega

theorem le_commas {p : List Token} {ps : List (List Token)} (h : p ∈ ps) :
    p.length ≤ (commas ps).length := by
  induction ps with
  | nil => exact absurd h List.not_mem_nil
  | cons q ps ih =>
    rcases List.mem_cons.mp h with rfl | hm
    · rw [commas_cons, List.length_append]
      omega
    · have ih' := ih hm
      cases ps with
      | nil => exact absurd hm List.not_mem_nil
      | cons r ps =>
        rw [commas, List.length_append, List.length_cons]
        omega

theorem readsBare_operator {l : Expr} {tail : List Token} (hl : l.Sound) (hb : ReadsBare (grammar n) l)
    (ht : EndsName [t]) (hp : e.print = l.wrapped ++ t :: tail)
    (hx : ∀ rest, Ends rest → ∃ more, extend (grammar n) 0 l.node t (t :: (tail ++ rest)) =
      .ok (some (e.node, more), rest)) : ReadsBare (grammar (n + 1)) e := by
  intro rest h
  obtain ⟨more, hm⟩ := hx rest h
  show expression (grammar n) 0 _ = _
  rw [hp, List.append_assoc]
  exact expression_extend (primary_wrapped hl (fun _ => hb) fun _ _ => endsName_cons _ (ht t rfl)) hm h

/-- an expression of an operator between two parts -/
theorem parsed_operator {l r : Expr} (inner : List Token) (sl : l.Sound) (sr : r.Sound) (pl : Parsed l)
    (pr : Parsed r) (ht : EndsName [t]) (hp : e.print = l.wrapped ++ t :: (inner ++ r.wrapped))
    (hx : ∀ g rest, Reads g r → Ends rest → ∃ more,
      extend g 0 l.node t (t :: (inner ++ r.wrapped ++ rest)) = .ok (some (e.node, more), rest)) :
    Parsed e := by
  intro n hn
  have hl := print_le_wrapped l
  simp only [hp, List.length_append, List.length_cons] at hn
  obtain ⟨m, rfl⟩ : ∃ m, n = m + 1 := ⟨n - 1, by omega⟩
  exact readsBare_operator sl (pl m (by omega)) ht hp fun rest h =>
    hx _ rest (pr.reads sr (by omega)) h

theorem readsBare_getAttr {o : Expr} {attr : Word} (hs : o.Sound)
    (hb : ReadsBare (grammar n) o) : ReadsBare (grammar (n + 1)) (.getAttr o attr) := by
  intro rest h
  show expression (grammar n) 0 _ = _
  have hp : (Expr.getAttr o attr).print ++ rest =
      o.wrapped ++ mark "." :: ⟨.ident, attr.text⟩ :: rest := by
    simp [Expr.print, Expr.wrapped]
  rw [hp]
  by_cases hv : ∃ x, o = .var x
  · -- the attributes of a name are read with it
    obtain ⟨x, rfl⟩ := hv
    have ha : attributesFrom ((mark "." :: ⟨.ident, attr.text⟩ :: rest).length + 1) (.var x.text)
        (mark "." :: ⟨.ident, attr.text⟩ :: rest) = .ok (.getAttr (.var x.text) attr.text, rest) := by
      rw [List.length_cons, attributesFrom]
      simp [attributesFrom_ends _ _ h.name]
    refine expression_ends ?_ h
    show primary (grammar n) (⟨.ident, x.text⟩ :: mark "." :: ⟨.ident, attr.text⟩ :: rest) = _
    rw [primary_ident]
    exact nameOrAssignment_ends ha (elementsFrom_ends _ _ _ h.name) h.name.unassigned
  · have hx : primary (grammar n) (o.wrapped ++ mark "." :: ⟨.ident, attr.text⟩ :: rest) =
        .ok (o.node, mark "." :: ⟨.ident, attr.text⟩ :: rest) :=
      primary_wrapped hs (fun _ => hb) fun x hx => absurd ⟨x, hx⟩ hv
    exact expression_extend hx (extend_attr o.node attr.text) h

theorem readsBare_getItem {x : Word} {i : Expr} (hi : Reads (grammar n) i) :
    ReadsBare (grammar (n + 1)) (.getItem x i) := by
  intro rest h
  show expression (grammar n) 0 _ = _
  have hp : (Expr.getItem x i).print ++ rest =
      ⟨.ident, x.text⟩ :: mark "[" :: (i.wrapped ++ mark "]" :: rest) := by
    simp [Expr.print, Expr.wrapped]
  have ha : attributesFrom ((mark "[" :: (i.wrapped ++ mark "]" :: rest)).length + 1) (.var x.text)
      (mark "[" :: (i.wrapped ++ mark "]" :: rest)) =
      .ok (.var x.text, mark "[" :: (i.wrapped ++ mark "]" :: rest)) := by
    simp [attributesFrom]
  have he : elementsFrom (grammar n) ((mark "[" :: (i.wrapped ++ mark "]" :: rest)).length + 1)
      (.var x.text) (mark "[" :: (i.wrapped ++ mark "]" :: rest)) =
      .ok (.getItem (.var x.text) i.node, rest) := by
    have hx := subscript_element hi rest
    rw [List.length_cons, elementsFrom]
    simp_all [elementsFrom_ends _ _ _ h.name]
  rw [hp]
  refine expression_ends ?_ h
  rw [primary_ident]
  exact nameOrAssignment_ends ha he h.name.unassigned

theorem readsBare_subscript {o : Expr} {sub : List Token} {s : Subscript} (hb : ReadsBare (grammar n) o)
    (hp : e.print = parens o.print ++ mark "[" :: sub)
    (hx : ∀ rest, subscript (grammar n) (mark "[" :: (sub ++ rest)) = .ok (s, rest))
    (hn : s.node o.node = e.node) : ReadsBare (grammar (n + 1)) e := by
  intro rest h
  show expression (grammar n) 0 _ = _
  rw [hp, List.append_assoc, ← hn]
  exact expression_extend (primary_parens hb _) (extend_subscript o.node (hx rest)) h

/-- an expression that is an operand of its own -/
theorem readsBare_primary
    (hp : ∀ rest, Ends rest → primary (grammar n) (e.print ++ rest) = .ok (e.node, rest)) :
    ReadsBare (grammar (n + 1)) e := by
  intro rest h
  exact expression_ends (hp rest h) h

theorem primary_not (hs : e.Sound) (hb : e.isAtom = false → ReadsBare (grammar n) e) (h : Ends rest) :
    primary (grammar (n + 1)) ((Expr.not e).print ++ rest) = .ok ((Expr.not e).node, rest) := by
  have hx : (grammar (n + 1)).primary (e.wrapped ++ rest) = .ok (e.node, rest) :=
    primary_wrapped hs hb fun _ _ => h.name
  obtain ⟨t, ts, ht, ho, _⟩ := e.wrapped_opens
  have hne : t ≠ reserved "in" := fun e => ho.ne (by decide) (by decide) (congrArg Token.text e)
  have hp : (Expr.not e).print ++ rest = reserved "not" :: (e.wrapped ++ rest) := rfl
  rw [hp]
  rw [ht, List.cons_append] at hx ⊢
  rw [reserved] at hne
  simp [primary, operand, notOperand, hne, hx, Expr.node]

theorem parsed_atom (hs : e.Sound) (ha : e.isAtom = true) : Parsed e := by
  intro n hn
  have hw : e.wrapped = e.print := by rw [Expr.wrapped, Expr.enclose, if_pos ha]
  obtain ⟨t, ts, ht, _⟩ := e.wrapped_opens
  obtain ⟨m, rfl⟩ : ∃ m, n = m + 1 := ⟨n - 1, by rw [← hw, ht, List.length_cons] at hn; omega⟩
  refine readsBare_primary fun rest h => ?_
  rw [← hw]
  exact primary_wrapped hs (fun hf => absurd ha (by rw [hf]; decide)) fun _ _ => h.name

/-- **Every sound expression is read back by readers of enough depth.** -/
theorem parsed_print (hs : e.Sound) : Parsed e := by
  induction hs with
  | num short => exact parsed_atom (.num short) rfl
  | str => exact parsed_atom .str rfl
  | var => exact parsed_atom .var rfl
  | @list items each ih =>
    intro n hn
    simp only [Expr.print, Expr.itemTokens_eq, List.length_append, List.length_cons] at hn
    obtain ⟨m, rfl⟩ : ∃ m, n = m + 1 := ⟨n - 1, by omega⟩
    refine readsBare_primary fun rest _ => primary_list (fun x hx => (ih x hx).reads (each x hx) ?_) rest
    have hl := le_commas (List.mem_map_of_mem (f := Expr.wrapped) hx)
    omega
  | @dict entries keys values ihk ihv =>
    intro n hn
    simp only [Expr.print, Expr.entryTokens_eq, List.length_append, List.length_cons] at hn
    obtain ⟨m, rfl⟩ : ∃ m, n = m + 1 := ⟨n - 1, by omega⟩
    have hl : ∀ p ∈ entries, p.1.wrapped.length ≤ m ∧ p.2.wrapped.length ≤ m := by
      intro p hp
      have hc := le_commas (List.mem_map_of_mem (f := Expr.entryPiece) hp)
      simp only [Expr.entryPiece, List.length_append, List.length_cons] at hc
      omega
    exact readsBare_primary fun rest _ => primary_dict keys
      (fun p hp => (ihk p hp).reads (keys p hp) (hl p hp).1)
      (fun p hp => (ihv p hp).reads (values p hp) (hl p hp).2) rest
  | @binop op l r sl sr ihl ihr =>
    have ht : EndsName [⟨.op, op.text⟩] := by cases op <;> exact endsName_cons _ (by decide)
    exact parsed_operator [] sl sr ihl ihr ht rfl fun g rest hr h =>
      ⟨_, extend_binop op l.node hr h⟩
  | @compare op l r sign sl sr ihl ihr =>
    have ht : EndsName [⟨.compare, op.text⟩] := endsName_cons _ (by simp)
    exact parsed_operator [] sl sr ihl ihr ht rfl fun g rest hr h =>
      ⟨_, extend_compare sign l.node hr h⟩
  | @inside l r sl sr ihl ihr =>
    exact parsed_operator [] sl sr ihl ihr (endsName_cons _ (by decide)) rfl fun g rest hr h =>
      ⟨_, extend_inside l.node hr h⟩
  | @outside l r sl sr ihl ihr =>
    exact parsed_operator [reserved "in"] sl sr ihl ihr (endsName_cons _ (by decide)) rfl
      fun g rest hr h => ⟨_, extend_outside l.node hr h⟩
  | @and l r sl sr ihl ihr =>
    exact parsed_operator [] sl sr ihl ihr (endsName_cons _ (by decide)) rfl fun g rest hr h =>
      ⟨_, extend_and l.node hr h⟩
  | @or l r sl sr ihl ihr =>
    exact parsed_operator [] sl sr ihl ihr (endsName_cons _ (by decide)) rfl fun g rest hr h =>
      ⟨_, extend_or l.node hr h⟩
  | @not e se ih =>
    intro n hn
    have hp : (Expr.not e).print = reserved "not" :: e.wrapped := rfl
    obtain ⟨t, ts, ht, _⟩ := e.wrapped_opens
    rw [hp, List.length_cons] at hn
    obtain ⟨m, rfl⟩ : ∃ m, n = m + 1 + 1 := ⟨n - 2, by rw [ht, List.length_cons] at hn; omega⟩
    refine readsBare_primary fun rest h => primary_not se (fun ha => ih m ?_) h
    rw [Expr.wrapped_compound ha] at hn
    simp only [parens, List.length_append, List.length_cons] at hn
    omega
  | @ternary c y n sc sy sn ihc ihy ihn =>
    intro k hk
    have hp : (Expr.ternary c y n).print =
        c.wrapped ++ mark "?" :: (y.wrapped ++ mark ":" :: n.wrapped) := rfl
    have hl := print_le_wrapped c
    rw [hp] at hk
    simp only [List.length_append, List.length_cons] at hk
    obtain ⟨m, rfl⟩ : ∃ m, k = m + 1 := ⟨k - 1, by omega⟩
    refine readsBare_operator sc (ihc m (by omega)) (endsName_cons _ (by decide)) hp fun rest h => ?_
    rw [List.append_assoc]
    exact ⟨_, extend_ternary c.node (ihy.reads sy (by omega)) (ihn.reads sn (by omega)) h⟩
  | @call f args keywords sf sa sk distinct ihf iha ihk =>
    intro n hn
    have hp : (Expr.call f args keywords).print = f.wrapped ++ mark "(" ::
        (commas (Expr.argTokens args ++ Expr.keywordTokens keywords) ++ [mark ")"]) := rfl
    have hl := print_le_wrapped f
    rw [hp] at hn
    simp only [Expr.argTokens_eq, Expr.keywordTokens_eq, List.length_append, List.length_cons] at hn
    obtain ⟨m, rfl⟩ : ∃ m, n = m + 1 := ⟨n - 1, by omega⟩
    have ha : ∀ p ∈ args, Reads (grammar m) p.2 := by
      intro p hm
      have hc := le_commas (List.mem_append_left (keywords.map Expr.namedPiece)
        (List.mem_map_of_mem (f := Expr.argPiece) hm))
      simp only [Expr.argPiece, List.length_append] at hc
      exact (iha p hm).reads (sa p hm) (by omega)
    have hk : ∀ p ∈ keywords, Reads (grammar m) p.2 := by
      intro p hm
      have hc := le_commas (List.mem_append_right (args.map Expr.argPiece)
        (List.mem_map_of_mem (f := Expr.namedPiece) hm))
      simp only [Expr.namedPiece, List.length_cons] at hc
      exact (ihk p hm).reads (sk p hm) (by omega)
    refine readsBare_operator sf (ihf m (by omega)) (endsName_cons _ (by decide)) hp fun rest _ => ?_
    exact ⟨_, extend_call f.node ha hk distinct rest⟩
  | @getAttr o attr so ih =>
    intro n hn
    have hp : (Expr.getAttr o attr).print = o.wrapped ++ [mark ".", ⟨.ident, attr.text⟩] := rfl
    have hl := print_le_wrapped o
    rw [hp] at hn
    simp only [List.length_append, List.length_cons] at hn
    obtain ⟨m, rfl⟩ : ∃ m, n = m + 1 := ⟨n - 1, by omega⟩
    exact readsBare_getAttr so (ih m (by omega))
  | @getItem x i si ih =>
    intro n hn
    have hp : (Expr.getItem x i).print = ⟨.ident, x.text⟩ :: mark "[" :: (i.wrapped ++ [mark "]"]) := rfl
    rw [hp] at hn
    simp only [List.length_append, List.length_cons] at hn
    obtain ⟨m, rfl⟩ : ∃ m, n = m + 1 := ⟨n - 1, by omega⟩
    exact readsBare_getItem (ih.reads si (by omega))
  | @index o i so si iho ihi =>
    intro n hn
    have hp : (Expr.index o i).print = parens o.print ++ mark "[" :: (i.wrapped ++ [mark "]"]) := by
      simp [Expr.print, Expr.wrapped]
    rw [hp] at hn
    simp only [parens, List.length_append, List.length_cons] at hn
    obtain ⟨m, rfl⟩ : ∃ m, n = m + 1 := ⟨n - 1, by omega⟩
    refine readsBare_subscript (s := .element i.node) (iho m (by omega)) hp (fun rest => ?_) rfl
    rw [List.append_assoc]
    exact subscript_element (ihi.reads si (by omega)) rest
  | @slice o start stop step so s1 s2 s3 iho ih1 ih2 ih3 =>
    intro n hn
    have hp : (Expr.slice o start stop step).print = parens o.print ++ mark "[" ::
        (Expr.optionTokens start ++ mark ":" :: (Expr.optionTokens stop ++
          (Expr.stepTokens step ++ [mark "]"]))) := by
      simp [Expr.print]
    rw [hp] at hn
    simp only [parens, List.length_append, List.length_cons] at hn
    obtain ⟨m, rfl⟩ : ∃ m, n = m + 1 := ⟨n - 1, by omega⟩
    have h1 : ∀ e ∈ start, Reads (grammar m) e := by
      rintro e rfl
      have hl : (Expr.optionTokens (some e)).length = e.wrapped.length := rfl
      exact (ih1 e rfl).reads (s1 e rfl) (by omega)
    have h2 : ∀ e ∈ stop, Reads (grammar m) e := by
      rintro e rfl
      have hl : (Expr.optionTokens (some e)).length = e.wrapped.length := rfl
      exact (ih2 e rfl).reads (s2 e rfl) (by omega)
    have h3 : ∀ e ∈ step, Reads (grammar m) e := by
      rintro e rfl
      have hl : (Expr.stepTokens (some e)).length = e.wrapped.length + 1 := rfl
      exact (ih3 e rfl).reads (s3 e rfl) (by omega)
    refine readsBare_subscript (s := .range (Expr.optionNode start) (Expr.optionNode stop)
      (Expr.optionNode step)) (iho m (by omega)) hp (fun rest => ?_) rfl
    simp only [List.append_assoc, List.cons_append, List.nil_append]
    exact subscript_range h1 h2 h3 rest
  | @lambda params b sp sb ihp ihb =>
    intro n hn
    have hp : (Expr.lambda params b).print = reserved "lambda" :: (parens (commas (Expr.paramTokens params)) ++
        mark "\x7b" :: (b.wrapped ++ [mark "\x7d"])) := by
      simp [Expr.print, Expr.wrapped]
    rw [hp] at hn
    simp only [Expr.paramTokens_eq, parens, List.length_append, List.length_cons] at hn
    obtain ⟨m, rfl⟩ : ∃ m, n = m + 1 + 1 := ⟨n - 2, by omega⟩
    have hd : ∀ p ∈ params, ∀ e ∈ p.2, Reads (grammar (m + 1)) e := by
      rintro ⟨name, value⟩ hm e rfl
      have hc := le_commas (List.mem_map_of_mem (f := Expr.paramPiece) hm)
      simp only [Expr.paramPiece, Expr.namedPiece, List.length_cons] at hc
      exact (ihp _ hm e rfl).reads (sp _ hm e rfl) (by omega)
    exact readsBare_primary fun rest _ => primary_lambda hd (ihb.reads sb (by omega)) rest

theorem parse_expression {ts : List Token} {node : Node} (ht : t.text ∉ statementWords)
    (hx : (grammar (ts.length + 3)).expr 0 (t :: ts) = .ok (node, [])) : parse (t :: ts) = .ok [node] := by
  have hs : statement (grammar (ts.length + 2)) (t :: ts) = .ok (node, []) :=
    (statement_expression _ t ts ht).trans hx
  have hp : statementsFrom (grammar (ts.length + 2)) none (ts.length + 2) (t :: ts) =
      .ok ([node], []) :=
    statementsFrom_step (by simp) hs (statementsFrom_end _ none ts.length)
  simp only [parse, program, List.length_cons, bind_run, get_run]
  rw [hp]
  rfl

/-- a program whose first statement is an expression that cannot be read -/
theorem parse_error {ts : List Token} {err : ParseError} (ht : t.text ∉ statementWords)
    (hx : (grammar (ts.length + 3)).expr 0 (t :: ts) = .error err) : parse (t :: ts) = .error err := by
  have hs : statement (grammar (ts.length + 2)) (t :: ts) = .error err :=
    (statement_expression _ t ts ht).trans hx
  have hp : statementsFrom (grammar (ts.length + 2)) none (ts.length + 2) (t :: ts) = .error err := by
    rw [statementsFrom]
    simp [hs]
  simp only [parse, program, List.length_cons, bind_run, get_run]
  rw [hp]
  rfl

theorem primary_num_long (g : Grammar) (h : 10 ^ maxDigits ≤ n) (rest : List Token) :
    primary g (⟨.number, toString n⟩ :: rest) =
      .error (.longInteger (Nat.toDigits 10 n).length) := by
  simp only [primary, bind_run, peek_run, List.head?_cons, expectKind_run, integer,
    readInt_long h, throw_run]

theorem opens_statement (h : Opens t) : t.text ∉ statementWords := by
  have hsub : ∀ s ∈ statementWords, s ∈ reservedTexts ∧ s ≠ "(" := by decide
  intro hm
  exact h.ne (hsub _ hm).1 (hsub _ hm).2 rfl

/-- an expression does not begin like a statement of another kind -/
theorem print_head (e : Expr) : ∃ t ts, e.print = t :: ts ∧ t.text ∉ statementWords := by
  have hw : ∀ (l : Expr) (tail : List Token),
      ∃ t ts, l.wrapped ++ tail = t :: ts ∧ t.text ∉ statementWords := by
    intro l tail
    obtain ⟨t, ts, ht, ho, _⟩ := l.wrapped_opens
    exact ⟨t, ts ++ tail, by rw [ht]; rfl, opens_statement ho⟩
  have hf : ∀ (k : Token.Kind) (w : Word) (tail : List Token),
      ∃ t ts, (⟨k, w.text⟩ : Token) :: tail = t :: ts ∧ t.text ∉ statementWords :=
    fun k w tail => ⟨_, _, rfl, opens_statement (Or.inr w.free)⟩
  cases e with
  | num n => exact ⟨_, _, rfl, opens_statement (Or.inr (toString_free n))⟩
  | str s => exact hf _ s _
  | var x => exact hf _ x _
  | getItem x i => exact hf _ x _
  | list items => exact ⟨mark "[", _, rfl, by decide⟩
  | dict entries => exact ⟨mark "\x7b", _, rfl, by decide⟩
  | not e => exact ⟨reserved "not", _, rfl, by decide⟩
  | lambda params b => exact ⟨reserved "lambda", _, rfl, by decide⟩
  | index o i => exact ⟨mark "(", _, rfl, by decide⟩
  | slice o start stop step => exact ⟨mark "(", _, rfl, by decide⟩
  | binop op l r => exact hw l _
  | compare op l r => exact hw l _
  | inside l r => exact hw l _
  | outside l r => exact hw l _
  | and l r => exact hw l _
  | or l r => exact hw l _
  | ternary c y n => exact hw c _
  | call f args keywords => exact hw f _
  | getAttr o attr => exact hw o _

end Parse

/-- **An expression that is written out is read back**, bare as well as in parentheses of its own. -/
theorem parse_print (e : Expr) (hs : e.Sound) :
    parse e.print = .ok [e.node] ∧ parse e.wrapped = .ok [e.node] := by
  have hp := Parse.parsed_print hs
  constructor
  · obtain ⟨t, ts, he, ht⟩ := Parse.print_head e
    have hx := hp (ts.length + 3) (by rw [he, List.length_cons]; omega) [] ends_nil
    rw [List.append_nil, he] at hx
    rw [he]
    exact Parse.parse_expression ht hx
  · obtain ⟨t, ts, he, ho, _⟩ := e.wrapped_opens
    have hx := hp.reads hs (n := ts.length + 3) (by rw [he, List.length_cons]; omega) 0 [] ends_nil
    rw [List.append_nil, he] at hx
    rw [he]
    exact Parse.parse_expression (Parse.opens_statement ho) hx

/-- a call of a function literal with every way to pass an argument, on a slice of a dictionary -/
def Expr.sample : Expr :=
  let x : Word := ⟨"x", by decide⟩
  let y : Word := ⟨"y", by decide⟩
  .call
    (.lambda [(x, none), (y, some (.num 2))] (.outside (.var x) (.getItem y (.not (.var x)))))
    [(.unpack, .list [.var x, .binop .add (.num 1) (.var y)]),
      (.keywordUnpack, .dict [(.str x, .ternary (.var x) (.num 0) (.getAttr (.var y) x))]),
      (.plain, .slice (.dict []) none (some (.index (.var x) (.num 3))) (some (.var y)))]
    [(x, .and (.compare .le (.var x) (.num 7)) (.inside (.var x) (.var y))), (y, .or (.var x) (.var y))]

theorem Expr.sample_sound : Expr.sample.Sound := by
  have small : ∀ n < 10, (Expr.num n).Sound := fun n hn =>
    .num (Nat.lt_of_lt_of_le hn (Nat.le_self_pow (by decide) 10))
  refine .call (.lambda ?_ (.outside .var (.getItem (.not .var)))) ?_ ?_ (by decide)
  · simp only [List.forall_mem_cons, Option.mem_def, Option.some.injEq, forall_eq']
    simp [small]
  · simp only [List.forall_mem_cons]
    refine ⟨.list ?_, .dict ?_ ?_, .slice (.dict (by simp) (by simp)) (by simp) ?_ ?_, by simp⟩
    · simp only [List.forall_mem_cons]
      exact ⟨.var, .binop (small 1 (by decide)) .var, by simp⟩
    · simp only [List.forall_mem_cons]
      exact ⟨.str, by simp⟩
    · simp only [List.forall_mem_cons]
      exact ⟨.ternary .var (small 0 (by decide)) (.getAttr .var), by simp⟩
    · rintro e ⟨⟩
      exact .index .var (small 3 (by decide))
    · rintro e ⟨⟩
      exact .var
  · simp only [List.forall_mem_cons]
    exact ⟨.and (.compare (by simp) .var (small 7 (by decide))) (.inside .var .var), .or .var .var, by simp⟩

theorem parse_print_sample : Expr.sample.Sound ∧ parse Expr.sample.print = .ok [Expr.sample.node] :=
  ⟨Expr.sample_sound, (parse_print _ Expr.sample_sound).1⟩

/-- a literal with more digits than can be read is an error -/
theorem parse_num_long (h : 10 ^ maxDigits ≤ n) :
    parse (Expr.num n).print = .error (.longInteger (Nat.toDigits 10 n).length) := by
  refine Parse.parse_error (Parse.opens_statement (Or.inr (toString_free n))) ?_
  show Parse.expression _ _ _ = _
  rw [Parse.expression, Parse.bind_run, Parse.primary_num_long _ h]

/-- the shortest literal that is not read back -/
theorem parse_print_long :
    parse (Expr.num (10 ^ maxDigits)).print ≠ .ok [(Expr.num (10 ^ maxDigits)).node] := by
  rw [parse_num_long (Nat.le_refl _)]
  exact nofun

end BraceScript
