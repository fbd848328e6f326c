import BraceScript.Proofs.Print.Precedence

/-!
# Formulas and their parentheses

An arithmetic formula needs parentheses around an operand whose operator binds too weakly for its place: on the
left, less tightly than the operator, and on the right, not more tightly. It may be written with more of them.
However it is written, it is read back.

* `Formula`         a tree of arithmetic operators over integers and variables
* `Formula.print`   its tokens, with the parentheses that it needs
* `Written`         all ways to write a formula; each has the parentheses of `Formula.print` at least
* `parse_written`   every way to write a formula is read as its tree
-/

namespace BraceScript

open Parse

/-- a tree of arithmetic operators over integers and variables -/
inductive Formula
  | int (n : Int)
  | var (name : VarName)
  | binop (op : ArithOp) (left right : Formula)

/-- the tokens of an integer: its digits, with a minus before them if it is negative -/
def literal (n : Int) : List Token :=
  if n < 0 then [⟨.op, "-"⟩, ⟨.number, toString n.natAbs⟩] else [⟨.number, toString n.natAbs⟩]

namespace Formula

def node : Formula → Node
  | int n => .num (.int n)
  | var name => .var name.text
  | binop op left right => .binop op left.node right.node

/-- the tokens of a formula in a place for operators that bind at least as tightly as `least` -/
def print (least : Nat) : Formula → List Token
  | int n => literal n
  | var name => [⟨.ident, name.text⟩]
  | binop op left right =>
    let ts := left.print (strength op) ++ ⟨.op, op.text⟩ :: right.print (strength op + 1)
    if least ≤ strength op then ts else parens ts

/-- every integer has at most the number of digits that can be read -/
def Short : Formula → Prop
  | int n => n.natAbs < 10 ^ maxDigits
  | var _ => True
  | binop _ left right => left.Short ∧ right.Short

end Formula

/-- the ways to write a formula in a place for operators that bind at least as tightly as `least` -/
inductive Written : Nat → Formula → List Token → Prop
  | int {least : Nat} (n : Int) : Written least (.int n) (literal n)
  | var {least : Nat} (name : VarName) : Written least (.var name) [⟨.ident, name.text⟩]
  | binop {least : Nat} {op : ArithOp} {l r : Formula} {ts us : List Token} (h : least ≤ strength op)
      (left : Written (strength op) l ts) (right : Written (strength op + 1) r us) :
      Written least (.binop op l r) (ts ++ ⟨.op, op.text⟩ :: us)
  | group {least : Nat} {e : Formula} {ts : List Token} (inner : Written 0 e ts) : Written least e (parens ts)

theorem Formula.print_written (least : Nat) (e : Formula) : Written least e (e.print least) := by
  induction e generalizing least with
  | int n => exact .int n
  | var name => exact .var name
  | binop op l r ihl ihr =>
    have hb : ∀ {k : Nat}, k ≤ strength op → Written k (.binop op l r)
        (l.print (strength op) ++ ⟨.op, op.text⟩ :: r.print (strength op + 1)) :=
      fun hk => .binop hk (ihl _) (ihr _)
    rw [print]
    split
    · rename_i h
      exact hb h
    · exact .group (hb (Nat.zero_le _))

/-- **No way to write a formula has fewer parentheses.** -/
theorem Written.print_sublist {least : Nat} {e : Formula} {ts : List Token} (h : Written least e ts) :
    (e.print least).Sublist ts := by
  induction h with
  | int n => exact List.Sublist.refl _
  | var name => exact List.Sublist.refl _
  | binop h left right ihl ihr =>
    rw [Formula.print, if_pos h]
    exact ihl.append (ihr.cons_cons _)
  | @group least e ts inner ih =>
    -- the parentheses that are there are the only ones that the place can ask for
    cases e with
    | int n => exact (ih.trans (List.sublist_append_left _ _)).cons (mark "(")
    | var name => exact (ih.trans (List.sublist_append_left _ _)).cons (mark "(")
    | binop op l r =>
      rw [Formula.print, if_pos (Nat.zero_le _)] at ih
      rw [Formula.print]
      split
      · exact (ih.trans (List.sublist_append_left _ _)).cons (mark "(")
      · exact (ih.append (List.Sublist.refl _)).cons_cons (mark "(")

/-! ## reading -/

namespace Parse

/-- what is taken as an operand is read at every strength -/
theorem readsAs_primary {k : Nat} {ts : List Token} {node : Node}
    (hp : ∀ n tail, ts.length ≤ n → EndsName tail → primary (grammar n) (ts ++ tail) = .ok (node, tail)) :
    ReadsAs k ts node := by
  intro n least tail hn hl hf result hc
  simp only [expression, bind_run, hp n tail hn hf.name, get_run]
  exact hc _ (Nat.lt_succ_self _)

theorem primary_minus {g : Grammar} {ts rest : List Token} {node : Node} (h : g.primary ts = .ok (node, rest)) :
    primary g (⟨.op, "-"⟩ :: ts) = .ok (negated node, rest) := by
  simp [primary, operand, h]

theorem readsAs_literal (k : Nat) {n : Int} (h : n.natAbs < 10 ^ maxDigits) :
    ReadsAs k (literal n) (.num (.int n)) := by
  apply readsAs_primary
  intro m tail hm _
  unfold literal at hm ⊢
  split
  · rename_i hn
    rw [if_pos hn] at hm
    obtain ⟨m, rfl⟩ : ∃ i, m = i + 1 := ⟨m - 1, by simp only [List.length_cons] at hm; omega⟩
    -- the minus reads the number after it as an operand, and negates it at once
    have hd : (grammar (m + 1)).primary (⟨.number, toString n.natAbs⟩ :: tail) =
        .ok (.num (.int n.natAbs), tail) := primary_num (grammar m) h tail
    have hv : -(n.natAbs : Int) = n := by omega
    have hm := primary_minus hd
    rw [negated, Numeral.neg, hv] at hm
    exact hm
  · have hv : (n.natAbs : Int) = n := by omega
    have hd := primary_num (grammar m) h tail
    rw [hv] at hd
    exact hd

end Parse

theorem Written.reads {k : Nat} {e : Formula} {ts : List Token} (h : Written k e ts) (hs : e.Short) :
    ReadsAs k ts e.node := by
  induction h with
  | @int k n => exact readsAs_literal k hs
  | var name => exact readsAs_primary fun n tail _ ht => primary_var (grammar n) name.text ht
  | binop h left right ihl ihr => exact readsAs_binop h (ihl hs.1) (ihr hs.2)
  | @group k e ts inner ih => exact readsAs_group (ih hs) k

/-- a formula does not begin like a statement of another kind -/
theorem Written.opens {k : Nat} {e : Formula} {ts : List Token} (h : Written k e ts) :
    ∃ t us, ts = t :: us ∧ t.text ∉ statementWords := by
  induction h with
  | int n =>
    unfold literal
    split
    · exact ⟨⟨.op, "-"⟩, _, rfl, by decide⟩
    · exact ⟨_, _, rfl, opens_statement (Or.inr (toString_free n.natAbs))⟩
  | var name => exact ⟨_, _, rfl, name.text_free⟩
  | binop h left right ihl ihr =>
    obtain ⟨t, us, rfl, hw⟩ := ihl
    exact ⟨t, _, rfl, hw⟩
  | group inner ih => exact ⟨mark "(", _, rfl, by decide⟩

/-- **A formula is read back however it is written.** The parentheses that its operators need are enough, every
way to write it has these, and more do not change its tree. -/
theorem parse_written (e : Formula) (hs : e.Short) :
    Written 0 e (e.print 0) ∧
      ∀ ts, Written 0 e ts → (e.print 0).Sublist ts ∧ parse ts = .ok [e.node] := by
  refine ⟨e.print_written 0, fun ts h => ⟨h.print_sublist, ?_⟩⟩
  obtain ⟨t, us, rfl, hw⟩ := h.opens
  have hr := (h.reads hs).ends (n := us.length + 2) (by rw [List.length_cons]; omega) (Nat.le_refl 0) ends_nil
  rw [List.append_nil] at hr
  exact parse_expression hw hr

/-- the formula `-1 - (-2 - 3) % x` -/
def Formula.sample : Formula :=
  .binop .sub (.int (-1)) (.binop .mod (.binop .sub (.int (-2)) (.int 3)) (.var ⟨"x", by decide, by decide⟩))

/-- `-1 - (-2 - 3) % (x)` -/
def Formula.sampleTokens : List Token :=
  [⟨.op, "-"⟩, ⟨.number, "1"⟩, ⟨.op, "-"⟩, mark "(", ⟨.op, "-"⟩, ⟨.number, "2"⟩, ⟨.op, "-"⟩, ⟨.number, "3"⟩, mark ")",
    ⟨.op, "%"⟩, mark "(", ⟨.ident, "x"⟩, mark ")"]

theorem parse_written_sample : Formula.sample.Short ∧ parse Formula.sampleTokens = .ok [Formula.sample.node] := by
  have small : ∀ n : Nat, n < 10 → n < 10 ^ maxDigits := fun n hn =>
    Nat.lt_of_lt_of_le hn (Nat.le_self_pow (by decide) 10)
  have hs : Formula.sample.Short := ⟨small 1 (by decide), ⟨small 2 (by decide), small 3 (by decide)⟩, trivial⟩
  have hw : Written 0 Formula.sample Formula.sampleTokens :=
    .binop (Nat.zero_le _) (.int (-1)) (.binop (by decide) (.group (.binop (Nat.zero_le _) (.int (-2)) (.int 3)))
      (.group (.var _)))
  exact ⟨hs, ((parse_written _ hs).2 _ hw).2⟩

/-- the formula of one literal with more digits than can be read is not read back -/
theorem parse_written_long :
    parse ((Formula.int (10 ^ maxDigits : Nat)).print 0) ≠ .ok [(Formula.int (10 ^ maxDigits : Nat)).node] := by
  have hp : (Formula.int (10 ^ maxDigits : Nat)).print 0 = (Expr.num (10 ^ maxDigits)).print := by
    rw [Formula.print, literal, if_neg (Int.not_lt.mpr (Int.natCast_nonneg _)), Int.natAbs_natCast, Expr.print]
  rw [hp, parse_num_long (Nat.le_refl _)]
  intro h
  cases h

end BraceScript
