import BraceScript.Eval.Module
import BraceScript.Proofs.Print.ParsePrint
import BraceScript.Proofs.Token.Layout

/-!
# How operators of different families nest

The arithmetic operators nest by strength. A comparison, a membership test and `and` and `or` have no
strength: whichever comes next after an operand takes that operand alone as its left side, however deep
the operand stands on the right of arithmetic operators, and all the rest as its right side.

* `Arith`         an arithmetic expression as it is written, with `Arith.node` its conventional tree
* `Arith.graft`   the tree with its last operand replaced
* `Chain`         arithmetic expressions with links between them, with `Chain.node` the tree that is read
* `Arith.reads`, `Chain.reads`   what the readers make of them
* `parse_links`   what a program of one chain is read as, and that no link has the conventional tree
-/

namespace BraceScript

variable {tail ts : List Token} {k : Nat}

open Parse

/-! ## written arithmetic -/

/-- the digits of a number token and the integer that they are read as -/
structure Digits where
  text : String
  value : Int
  canonical : Token.Canonical ⟨.number, text⟩
  read : readInt text = .ok value

/-- a name of a variable; `include` begins a statement -/
structure VarName where
  text : String
  canonical : Token.Canonical ⟨.ident, text⟩
  free : text ≠ "include"

/-- an operand without parts -/
inductive Atom
  | int (whole : Digits)
  /-- a number with a point and the double that it is read as -/
  | real (whole : Digits) (fraction : String) (canonical : Token.Canonical ⟨.number, fraction⟩)
      (x : Double) (read : readDouble? (numeralText (.int whole.value) ++ "." ++ fraction) = some x)
  | var (name : VarName)

namespace Atom

def print : Atom → List Token
  | int whole => [⟨.number, whole.text⟩]
  | real whole fraction .. => [⟨.number, whole.text⟩, mark ".", ⟨.number, fraction⟩]
  | var name => [⟨.ident, name.text⟩]

def node : Atom → Node
  | int whole => .num (.int whole.value)
  | real _ _ _ x _ => .num (.real x)
  | var name => .var name.text

theorem print_pos (a : Atom) : 0 < a.print.length := by
  cases a <;> exact Nat.succ_pos _

end Atom

/-- an arithmetic expression whose operators outside of parentheses bind at least as tightly as `least` -/
inductive Arith : Nat → Type
  | atom {least : Nat} (a : Atom) : Arith least
  | group {least : Nat} (e : Arith 0) : Arith least
  | binop {least : Nat} (op : ArithOp) (h : least ≤ strength op) (left : Arith (strength op))
      (right : Arith (strength op + 1)) : Arith least

namespace Arith

def print : {least : Nat} → Arith least → List Token
  | _, atom a => a.print
  | _, group e => parens e.print
  | _, binop op _ left right => left.print ++ ⟨.op, op.text⟩ :: right.print

def node : {least : Nat} → Arith least → Node
  | _, atom a => a.node
  | _, group e => e.node
  | _, binop op _ left right => .binop op left.node right.node

/-- the tree with a change to its last operand; an expression in parentheses is one operand -/
def graft (f : Node → Node) : {least : Nat} → Arith least → Node
  | _, atom a => f a.node
  | _, group e => f e.node
  | _, binop op _ left right => .binop op left.node (right.graft f)

/-- the tree is made by an arithmetic operator, or the change is to the whole of it -/
theorem graft_top (f : Node → Node) {least : Nat} (a : Arith least) :
    (∃ op l r, a.graft f = .binop op l r) ∨ a.graft f = f a.node := by
  cases a with
  | atom a => exact Or.inr rfl
  | group e => exact Or.inr rfl
  | binop op h l r => exact Or.inl ⟨op, _, _, rfl⟩

end Arith

/-! ## chains of links -/

/-- an operator without strength between two operands -/
inductive Link
  | compare (op : CompareOp) (known : ∀ s, op ≠ .other s)
  | inside
  | outside
  | and
  | or

namespace Link

def tokens : Link → List Token
  | compare op _ => [⟨.compare, op.text⟩]
  | inside => [reserved "in"]
  | outside => [reserved "not", reserved "in"]
  | and => [reserved "and"]
  | or => [reserved "or"]

def join : Link → Node → Node → Node
  | compare op _ => .compare op
  | inside => .inside
  | outside => .outside
  | and => .and
  | or => .or

/-- a link does not make an arithmetic operation -/
theorem join_ne_binop (l : Link) (a b : Node) (op : ArithOp) (x y : Node) :
    l.join a b ≠ .binop op x y := by
  cases l <;> exact nofun

end Link

/-- arithmetic expressions with links between them -/
inductive Chain
  | last (a : Arith 0)
  | link (a : Arith 0) (l : Link) (rest : Chain)

namespace Chain

def print : Chain → List Token
  | last a => a.print
  | link a l rest => a.print ++ (l.tokens ++ rest.print)

/-- each link takes the last operand before it and all the rest -/
def node : Chain → Node
  | last a => a.node
  | link a l rest => a.graft fun x => l.join x rest.node

end Chain

/-! ## reading arithmetic -/

namespace Parse

/-- the tokens after an expression at a strength: its end, or an operator that binds no more tightly -/
def Follows (least : Nat) (tail : List Token) : Prop :=
  Ends tail ∨ ∃ op ts, tail = ⟨.op, op.text⟩ :: ts ∧ strength op ≤ least

theorem endsName_op (op : ArithOp) (ts : List Token) : EndsName (⟨.op, op.text⟩ :: ts) :=
  endsName_cons ts (by cases op <;> decide)

theorem Follows.name {least : Nat} (h : Follows least tail) : EndsName tail := by
  rcases h with h | ⟨op, ts, rfl, -⟩
  · exact h.name
  · exact endsName_op op ts

theorem Follows.weaken {least : Nat} (h : Follows k tail) (hk : k ≤ least) : Follows least tail := by
  rcases h with h | ⟨op, ts, rfl, hs⟩
  · exact Or.inl h
  · exact Or.inr ⟨op, ts, rfl, hs.trans hk⟩

variable {g : Grammar} {least : Nat}

/-- an arithmetic operator takes a right side that binds more tightly, if it is strong enough -/
theorem extend_arith {op : ArithOp} {node right : Node} {rest : List Token} (h : least ≤ strength op)
    (hr : g.expr (strength op + 1) ts = .ok (right, rest)) :
    extend g least node ⟨.op, op.text⟩ (⟨.op, op.text⟩ :: ts) =
      .ok (some (.binop op node right, true), rest) := by
  have hs : ¬ strength op < least := by omega
  simp [extend, text_ne_word op, ofText_text op, hs, hr]

theorem extend_weaker {op : ArithOp} (h : strength op < least) (node : Node) (ts : List Token) :
    extend g least node ⟨.op, op.text⟩ ts = .ok (none, ts) := by
  simp [extend, text_ne_word op, ofText_text op, h]

/-- an expression at a higher strength stops before what follows -/
theorem operatorsFrom_follows (h : Follows k tail) (hk : k < least) {fuel : Nat} (hf : tail.length < fuel)
    (node : Node) : operatorsFrom g least fuel node tail = .ok (node, tail) := by
  obtain ⟨fuel, rfl⟩ : ∃ m, fuel = m + 1 := ⟨fuel - 1, by omega⟩
  rcases h with h | ⟨op, ts, rfl, hs⟩
  · exact operatorsFrom_ends g least fuel node h
  · have hx := extend_weaker (g := g) (lt_of_le_of_lt hs hk) node (⟨.op, op.text⟩ :: ts)
    simp [operatorsFrom, hx]

/-- a link takes the operand before it, whatever the strength, and a whole expression after it -/
theorem operatorsFrom_link {l : Link} {node right : Node} {rest : List Token} {fuel : Nat}
    (hf : (l.tokens ++ ts).length < fuel) (hr : g.expr 0 ts = .ok (right, rest)) (he : Ends rest) :
    operatorsFrom g least fuel node (l.tokens ++ ts) = .ok (l.join node right, rest) := by
  obtain ⟨fuel, rfl⟩ : ∃ m, fuel = m + 2 := by
    refine ⟨fuel - 2, ?_⟩
    cases l <;> simp only [Link.tokens, List.length_append, List.length_cons] at hf <;> omega
  have hx : ∃ t tail more, l.tokens ++ ts = t :: tail ∧
      extend g least node t (t :: tail) = .ok (some (l.join node right, more), rest) := by
    cases l with
    | compare op known =>
      refine ⟨_, ts, true, rfl, ?_⟩
      cases op with
      | other s => exact absurd rfl (known s)
      | _ => simp [extend, CompareOp.text, CompareOp.ofText, hr, Link.join]
    | inside => exact ⟨_, ts, false, rfl, by simp [extend, hr, Link.join]⟩
    | outside => exact ⟨_, _, false, rfl, by simp [extend, hr, Link.join]⟩
    | and => exact ⟨_, ts, false, rfl, by simp [extend, hr, Link.join]⟩
    | or => exact ⟨_, ts, false, rfl, by simp [extend, hr, Link.join]⟩
  obtain ⟨t, tail, more, ht, hx⟩ := hx
  rw [ht, operatorsFrom_extend _ hx, operatorsFrom_ends g least fuel _ he]
  exact ite_self _

/-- a name or a number, and then the operators after it -/
theorem expression_atom (a : Atom) (ht : EndsName tail) {result : Except ParseError (Node × List Token)}
    (hc : ∀ fuel, tail.length < fuel → operatorsFrom g least fuel a.node tail = result) :
    expression g least (a.print ++ tail) = result := by
  cases a with
  | int whole =>
    have hp : primary g (⟨.number, whole.text⟩ :: tail) = .ok (.num (.int whole.value), tail) := by
      simp [primary, integer, whole.read]
    simp only [Atom.print, List.singleton_append, expression, bind_run, hp, get_run]
    exact hc _ (Nat.lt_succ_self _)
  | real whole fraction canonical x read =>
    have hp : primary g (⟨.number, whole.text⟩ :: mark "." :: ⟨.number, fraction⟩ :: tail) =
        .ok (.num (.int whole.value), mark "." :: ⟨.number, fraction⟩ :: tail) := by
      simp [primary, integer, whole.read]
    -- the point and the fraction are read as an operator after the whole number
    have hx : extend g least (.num (.int whole.value)) (mark ".")
        (mark "." :: ⟨.number, fraction⟩ :: tail) = .ok (some (.num (.real x), true), tail) := by
      simp [extend, afterPoint, withFraction, read]
    simp only [Atom.print, List.cons_append, List.nil_append, expression, bind_run, hp, get_run]
    rw [operatorsFrom_extend _ hx, if_pos rfl]
    exact hc _ (by simp only [List.length_cons]; omega)
  | var name =>
    simp only [Atom.print, List.singleton_append, expression, bind_run, primary_var g name.text ht,
      get_run]
    exact hc _ (Nat.lt_succ_self _)

/-- an expression in parentheses, and then the operators after it -/
theorem expression_group {node : Node} (hi : g.expr 0 (ts ++ mark ")" :: tail) = .ok (node, mark ")" :: tail))
    {result : Except ParseError (Node × List Token)}
    (hc : ∀ fuel, tail.length < fuel → operatorsFrom g least fuel node tail = result) :
    expression g least (parens ts ++ tail) = result := by
  have hp : primary g (parens ts ++ tail) = .ok (node, tail) := by
    rw [mark] at hi
    simp [primary, operand, parenthesized, parens, hi]
  simp only [expression, bind_run, hp, get_run]
  exact hc _ (Nat.lt_succ_self _)

/-- the tokens are read as a tree at every strength up to `k`, and then the operators after them -/
def ReadsAs (k : Nat) (ts : List Token) (node : Node) : Prop :=
  ∀ ⦃n least : Nat⦄ ⦃tail : List Token⦄, ts.length ≤ n → least ≤ k → Follows k tail →
    ∀ ⦃result : Except ParseError (Node × List Token)⦄,
      (∀ fuel, tail.length < fuel → operatorsFrom (grammar n) least fuel node tail = result) →
      expression (grammar n) least (ts ++ tail) = result

theorem ReadsAs.ends {node : Node} (h : ReadsAs k ts node) {n least : Nat} (hn : ts.length ≤ n) (hl : least ≤ k)
    (he : Ends tail) : expression (grammar n) least (ts ++ tail) = .ok (node, tail) := by
  refine h hn hl (Or.inl he) fun fuel hx => ?_
  obtain ⟨fuel, rfl⟩ : ∃ m, fuel = m + 1 := ⟨fuel - 1, by omega⟩
  exact operatorsFrom_ends _ _ _ _ he

theorem readsAs_group {node : Node} (h : ReadsAs 0 ts node) (k : Nat) : ReadsAs k (parens ts) node := by
  intro n least tail hn hl hf result hc
  simp only [parens, List.length_append, List.length_cons, List.length_nil] at hn
  obtain ⟨m, rfl⟩ : ∃ m, n = m + 1 := ⟨n - 1, by omega⟩
  have hlen : ts.length ≤ m := by omega
  exact expression_group (h.ends hlen (Nat.le_refl 0) (ends_cons tail (by decide))) hc

/-- an operator takes what stands before it, and a right side that binds more tightly -/
theorem readsAs_binop {op : ArithOp} {us : List Token} {left right : Node} (h : k ≤ strength op)
    (hl : ReadsAs (strength op) ts left) (hr : ReadsAs (strength op + 1) us right) :
    ReadsAs k (ts ++ ⟨.op, op.text⟩ :: us) (.binop op left right) := by
  intro n least tail hn hle hf result hc
  simp only [List.length_append, List.length_cons] at hn
  obtain ⟨m, rfl⟩ : ∃ m, n = m + 1 := ⟨n - 1, by omega⟩
  -- the right side is read at a higher strength, at which it stops before the tail
  have hright : (grammar (m + 1)).expr (strength op + 1) (us ++ tail) = .ok (right, tail) := by
    refine hr (n := m) (by omega) (Nat.le_refl _) (hf.weaken (by omega)) fun fuel hx => ?_
    exact operatorsFrom_follows hf (by omega) hx right
  rw [List.append_assoc, List.cons_append]
  refine hl (by omega) (hle.trans h) (Or.inr ⟨op, _, rfl, Nat.le_refl _⟩) fun fuel hx => ?_
  obtain ⟨fuel, rfl⟩ : ∃ m, fuel = m + 1 := ⟨fuel - 1, by omega⟩
  rw [operatorsFrom_extend _ (extend_arith (hle.trans h) hright), if_pos rfl]
  exact hc fuel (by simp only [List.length_cons, List.length_append] at hx; omega)

end Parse

/-- **Arithmetic is read as its conventional tree**, and then the operators after it. -/
theorem Arith.reads (a : Arith k) : ReadsAs k a.print a.node := by
  induction a with
  | atom a => exact fun _ _ _ _ _ hf _ hc => expression_atom a hf.name hc
  | @group k e ih => exact readsAs_group ih k
  | binop op h l r ihl ihr => exact readsAs_binop h ihl ihr

theorem Arith.reads_ends (a : Arith k) {n least : Nat} (hn : a.print.length ≤ n) (hl : least ≤ k)
    (he : Ends tail) : expression (grammar n) least (a.print ++ tail) = .ok (a.node, tail) :=
  a.reads.ends hn hl he

/-- **What takes the operand before it takes the last operand of the arithmetic before it**, at every
strength. -/
theorem Arith.reads_graft (a : Arith k) {n least : Nat} {f : Node → Node} {rest : List Token}
    (hn : a.print.length ≤ n) (hl : least ≤ k) (ht : EndsName tail) (he : Ends rest)
    (hc : ∀ m least fuel x, n < m + a.print.length → tail.length < fuel →
      operatorsFrom (grammar m) least fuel x tail = .ok (f x, rest)) :
    expression (grammar n) least (a.print ++ tail) = .ok (a.graft f, rest) := by
  induction a generalizing n least with
  | atom a => exact expression_atom a ht fun fuel hx => hc n least fuel _ (Nat.lt_add_of_pos_right a.print_pos) hx
  | @group k e ih =>
    simp only [print, parens, List.length_append, List.length_cons, List.length_nil] at hn hc
    obtain ⟨m, rfl⟩ : ∃ m, n = m + 1 := ⟨n - 1, by omega⟩
    have hi := e.reads_ends (n := m) (by omega) (Nat.le_refl 0) (ends_cons tail (t := mark ")") (by decide))
    exact expression_group hi fun fuel hx =>
      hc (m + 1) least fuel _ (by omega) hx
  | @binop k op h l r ihl ihr =>
    simp only [print, List.length_append, List.length_cons] at hn hc
    obtain ⟨m, rfl⟩ : ∃ m, n = m + 1 := ⟨n - 1, by omega⟩
    -- the tail goes to the right side, and nothing is left for the operator itself
    have hr : (grammar (m + 1)).expr (strength op + 1) (r.print ++ tail) = .ok (r.graft f, rest) :=
      ihr (by omega) (Nat.le_refl _) fun i least fuel x hi hx => hc i least fuel x (by omega) hx
    rw [print, List.append_assoc, List.cons_append]
    refine l.reads (by omega) (hl.trans h) (Or.inr ⟨op, _, rfl, Nat.le_refl _⟩) fun fuel hx => ?_
    obtain ⟨fuel, rfl⟩ : ∃ m, fuel = m + 2 := ⟨fuel - 2, by simp only [List.length_cons] at hx; omega⟩
    rw [operatorsFrom_extend _ (extend_arith (hl.trans h) hr), if_pos rfl]
    exact operatorsFrom_ends _ _ _ _ he

/-! ## reading chains -/

theorem Link.endsName (l : Link) (ts : List Token) : EndsName (l.tokens ++ ts) := by
  cases l with
  | compare op known =>
    cases op with
    | other s => exact absurd rfl (known s)
    | _ => exact endsName_cons ts (by decide)
  | _ => exact endsName_cons _ (by decide)

/-- **Chains are read from the right**: a link takes one operand on its left and all that is on its
right. -/
theorem Chain.reads (c : Chain) {n : Nat} (hn : c.print.length ≤ n)
    (he : Ends tail) : expression (grammar n) 0 (c.print ++ tail) = .ok (c.node, tail) := by
  induction c generalizing n with
  | last a => exact a.reads_ends hn (Nat.le_refl 0) he
  | link a l rest ih =>
    simp only [print, List.length_append] at hn
    have hl : 0 < l.tokens.length := by cases l <;> exact Nat.succ_pos _
    rw [print, List.append_assoc, List.append_assoc]
    refine a.reads_graft (by omega) (Nat.le_refl 0) (l.endsName _) he fun m least fuel x hm hx => ?_
    obtain ⟨m, rfl⟩ : ∃ i, m = i + 1 := ⟨m - 1, by omega⟩
    exact operatorsFrom_link hx (ih (by omega)) he

/-! ## sources -/

theorem canonical_mark {s : String} (h : s ∈ Token.symbols.map String.singleton) :
    (mark s).Canonical := h

theorem Atom.print_canonical (a : Atom) : ∀ t ∈ a.print, t.Canonical := by
  cases a with
  | int whole => simpa [print] using whole.canonical
  | real whole fraction canonical x read =>
    simpa [print, whole.canonical, canonical] using canonical_mark (s := ".") (by decide)
  | var name => simpa [print] using name.canonical

theorem Arith.print_canonical (a : Arith k) : ∀ t ∈ a.print, t.Canonical := by
  induction a with
  | atom a => exact a.print_canonical
  | group e ih =>
    intro t ht
    simp only [print, parens, List.mem_append, List.mem_cons, List.not_mem_nil, or_false] at ht
    rcases ht with (rfl | ht) | rfl
    · exact canonical_mark (by decide)
    · exact ih t ht
    · exact canonical_mark (by decide)
  | binop op h l r ihl ihr =>
    intro t ht
    simp only [print, List.mem_append, List.mem_cons] at ht
    rcases ht with ht | rfl | ht
    · exact ihl t ht
    · cases op <;> decide
    · exact ihr t ht

theorem Link.tokens_canonical (l : Link) : ∀ t ∈ l.tokens, t.Canonical := by
  cases l with
  | compare op known =>
    rw [tokens, List.forall_mem_singleton]
    cases op with
    | other s => exact absurd rfl (known s)
    | _ => decide
  | _ => decide

theorem Chain.print_canonical (c : Chain) : ∀ t ∈ c.print, t.Canonical := by
  induction c with
  | last a => exact a.print_canonical
  | link a l rest ih =>
    intro t ht
    simp only [print, List.mem_append] at ht
    rcases ht with ht | ht | ht
    · exact a.print_canonical t ht
    · exact l.tokens_canonical t ht
    · exact ih t ht

/-- a number is no word -/
theorem Digits.text_free (d : Digits) : d.text ∉ statementWords := by
  have hw : ∀ s ∈ statementWords, s.toList.all Text.isDigit = false := by decide
  intro hm
  have hd : d.text.toList.all Text.isDigit = true := d.canonical.2
  rw [hw _ hm] at hd
  cases hd

theorem VarName.text_free (x : VarName) : x.text ∉ statementWords := by
  have hw : ∀ s ∈ statementWords, s ∈ Token.keywords ∨ s = "include" := by decide
  intro hm
  rcases hw _ hm with h | h
  · exact x.canonical.2 h
  · exact x.free h

/-- arithmetic does not begin like a statement of another kind -/
theorem Arith.print_opens (a : Arith k) : ∃ t ts, a.print = t :: ts ∧ t.text ∉ statementWords := by
  induction a with
  | atom a =>
    cases a with
    | int whole => exact ⟨_, _, rfl, whole.text_free⟩
    | real whole => exact ⟨_, _, rfl, whole.text_free⟩
    | var name => exact ⟨_, _, rfl, name.text_free⟩
  | group e ih => exact ⟨mark "(", _, rfl, by decide⟩
  | binop op h l r ihl ihr =>
    obtain ⟨t, ts, ht, hw⟩ := ihl
    exact ⟨t, _, by rw [print, ht, List.cons_append], hw⟩

theorem Chain.print_opens (c : Chain) : ∃ t ts, c.print = t :: ts ∧ t.text ∉ statementWords := by
  cases c with
  | last a => exact a.print_opens
  | link a l rest =>
    obtain ⟨t, ts, ht, hw⟩ := a.print_opens
    exact ⟨t, _, by rw [print, ht, List.cons_append], hw⟩

theorem Chain.parseSource (c : Chain) {src : Source} (hs : src.Clean) (ht : src.tokens = c.print) :
    parseSource (String.ofList src.text) = .ok [c.node] := by
  have hc : ∀ t ∈ src.tokens, t.Canonical := ht ▸ c.print_canonical
  have hp : tokenize (String.ofList src.text) = c.print := by
    have hb : ∀ p ∈ src.body, p.1.Canonical := fun p hp =>
      hc p.1 (List.mem_append_left _ (List.mem_map_of_mem hp))
    have hl : ∀ t ∈ src.last, t.Canonical := fun t hl =>
      hc t (List.mem_append_right _ (Option.mem_toList.mpr hl))
    rw [← ht, tokenize, String.toList_ofList]
    show Token.tokensOf src.text = _
    rw [Source.text, Source.tokensOf_body hb hs, Source.tokensOf_last hl, Source.tokens]
  obtain ⟨t, ts, he, hw⟩ := c.print_opens
  have hr := c.reads (n := ts.length + 2) (by rw [he, List.length_cons]; omega) ends_nil
  rw [List.append_nil, he] at hr
  rw [BraceScript.parseSource, hp, he]
  exact parse_expression hw hr

/-- **How links and arithmetic nest.** A source of arithmetic expressions with links between them is one
statement, and every link in it takes the last operand before it and all the rest. So
`a < b and c < d` compares with the last operand of `a` what `and` makes of the last operand of `b`, and
`a + b < c` adds to `a` a comparison of the last operand of `b`: neither is ever read as the conventional
tree, in which comparisons bind more tightly than `and` and `or` and less tightly than a sum. -/
theorem parse_links (src : Source) (hs : src.Clean) :
    (∀ c : Chain, src.tokens = c.print → parseSource (String.ofList src.text) = .ok [c.node]) ∧
      (∀ (a b c d : Arith 0) (p q : CompareOp) (k : Link), (∀ s, p ≠ .other s) → (∀ s, q ≠ .other s) →
        k = .and ∨ k = .or →
        src.tokens = a.print ++ (⟨.compare, p.text⟩ :: (b.print ++ (k.tokens ++
          (c.print ++ ⟨.compare, q.text⟩ :: d.print)))) →
        parseSource (String.ofList src.text) =
            .ok [a.graft fun x => .compare p x (b.graft fun y => k.join y
              (c.graft fun z => .compare q z d.node))] ∧
          parseSource (String.ofList src.text) ≠
            .ok [k.join (.compare p a.node b.node) (.compare q c.node d.node)]) ∧
      ∀ (a : Arith (strength .add)) (b : Arith (strength .add + 1)) (c : Arith 0) (p : CompareOp),
        (∀ s, p ≠ .other s) →
        src.tokens = a.print ++ (⟨.op, ArithOp.add.text⟩ ::
          (b.print ++ ⟨.compare, p.text⟩ :: c.print)) →
        parseSource (String.ofList src.text) =
            .ok [.binop .add a.node (b.graft fun x => .compare p x c.node)] ∧
          parseSource (String.ofList src.text) ≠
            .ok [.compare p (.binop .add a.node b.node) c.node] := by
  refine ⟨fun c ht => c.parseSource hs ht, fun a b c d p q k hp hq hk ht => ?_,
    fun a b c p hp ht => ?_⟩
  · have h := Chain.parseSource (.link a (.compare p hp) (.link b k (.link c (.compare q hq) (.last d))))
      hs (by rw [ht]; rfl)
    refine ⟨h, fun hn => ?_⟩
    rw [h] at hn
    injection hn with hn
    injection hn with hn
    rcases a.graft_top _ with ⟨op, l, r, he⟩ | he
    · exact k.join_ne_binop _ _ op l r (hn.symm.trans he)
    · rcases hk with rfl | rfl <;> exact nomatch hn.symm.trans he
  · have h := Chain.parseSource (.link (.binop .add (Nat.zero_le _) a b) (.compare p hp) (.last c))
      hs (by rw [ht]; simp [Chain.print, Arith.print, Link.tokens])
    refine ⟨h, fun hn => ?_⟩
    rw [h] at hn
    injection hn with hn
    exact nomatch List.cons.inj hn

theorem isBlank_space : Text.isBlank ' ' = true := rfl

theorem opens_space :
    ∃ c cs, Text.isBlank c = true ∧ piecesText [.blank ' ' isBlank_space] = c :: cs := ⟨' ', [], rfl, rfl⟩

theorem ends_space :
    ∃ cs c, Text.isBlank c = true ∧ piecesText [.blank ' ' isBlank_space] = cs ++ [c] := ⟨[], ' ', rfl, rfl⟩

/-- tokens with a blank after each of them but the last -/
def Source.spaced (ts : List Token) (last : Token) : Source where
  body := ts.map fun t => (t, ⟨[.blank ' ' isBlank_space], opens_space, ends_space⟩)
  last := some last

/-- the number 1 -/
def Digits.one : Digits := ⟨"1", 1, by decide, rfl⟩

/-- `1 + 1 == 1` adds the comparison of 1 with 1 to 1, and `1 < 1 and 1 < 1` compares 1 with what `and`
gives -/
theorem parse_links_ones :
    parseSource "1 + 1 == 1" =
        .ok [.binop .add (.num (.int 1)) (.compare .eq (.num (.int 1)) (.num (.int 1)))] ∧
      parseSource "1 < 1 and 1 < 1" =
        .ok [.compare .lt (.num (.int 1)) (.and (.num (.int 1))
          (.compare .lt (.num (.int 1)) (.num (.int 1))))] := by
  have hs := (parse_links (.spaced [⟨.number, "1"⟩, ⟨.op, "+"⟩, ⟨.number, "1"⟩, ⟨.compare, "=="⟩]
    ⟨.number, "1"⟩) (by decide)).2.2 (.atom (.int .one)) (.atom (.int .one)) (.atom (.int .one)) .eq
    nofun rfl
  have hc := (parse_links (.spaced [⟨.number, "1"⟩, ⟨.compare, "<"⟩, ⟨.number, "1"⟩, reserved "and",
    ⟨.number, "1"⟩, ⟨.compare, "<"⟩] ⟨.number, "1"⟩) (by decide)).2.1 (.atom (.int .one))
    (.atom (.int .one)) (.atom (.int .one)) (.atom (.int .one)) .lt .lt .and nofun nofun (Or.inl rfl) rfl
  exact ⟨hs.1, hc.1⟩

end BraceScript
