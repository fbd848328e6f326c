import BraceScript.Parse.Statement

/-!
# Accounts of brackets

Every form that is read takes as many opening as closing brackets, with two exceptions. An embedded block is
kept as text, so the brackets in it need not match, and its braces need not be closed. And the head of a
handler may be left after its parenthesis, which then is never closed.

* `Bracket`         the pairs of brackets, with `Bracket.weigh` for the excess of opening ones
* `loose`           the tokens of embedded blocks, and the parentheses of heads that are left
* `Ledger`          a way to keep account of the brackets that are open
* `Bracket.ledger`  the account by the excess of one pair of brackets
-/

namespace BraceScript

open Parse

/-- the pairs of brackets -/
inductive Bracket
  | brace
  | paren
  | square
deriving DecidableEq, Repr

namespace Bracket

def left : Bracket → Char
  | brace => '\x7b'
  | paren => '('
  | square => '['

def right : Bracket → Char
  | brace => '\x7d'
  | paren => ')'
  | square => ']'

def opening : Bracket → String
  | brace => "\x7b"
  | paren => "("
  | square => "["

def closing : Bracket → String
  | brace => "\x7d"
  | paren => ")"
  | square => "]"

/-- how many more brackets are opened than closed in a text -/
def excess (b : Bracket) (cs : List Char) : Int := cs.count b.left - cs.count b.right

theorem excess_append (b : Bracket) (cs ds : List Char) : b.excess (cs ++ ds) = b.excess cs + b.excess ds := by
  simp only [excess, List.count_append]
  omega

theorem excess_pair (b c : Bracket) : b.excess c.opening.toList + b.excess c.closing.toList = 0 := by
  cases b <;> cases c <;> rfl

end Bracket

def punctuation : List Token → List Char
  | [] => []
  | t :: ts => (if t.kind = .symbol then t.text.toList else []) ++ punctuation ts

theorem punctuation_append (ts us : List Token) : punctuation (ts ++ us) = punctuation ts ++ punctuation us := by
  induction ts with
  | nil => rfl
  | cons t ts ih => rw [List.cons_append, punctuation, ih, punctuation, List.append_assoc]

namespace Bracket

/-- how many more brackets are opened than closed by the tokens -/
def weigh (b : Bracket) (ts : List Token) : Int := b.excess (punctuation ts)

theorem weigh_append (b : Bracket) (ts us : List Token) : b.weigh (ts ++ us) = b.weigh ts + b.weigh us := by
  rw [weigh, punctuation_append, excess_append, weigh, weigh]

theorem weigh_symbol (b : Bracket) (text : String) (ts : List Token) :
    b.weigh (⟨.symbol, text⟩ :: ts) = b.excess text.toList + b.weigh ts :=
  b.excess_append text.toList (punctuation ts)

theorem weigh_other (b : Bracket) {t : Token} (h : t.kind ≠ .symbol) (ts : List Token) :
    b.weigh (t :: ts) = b.weigh ts := by
  rw [weigh, punctuation, if_neg h, List.nil_append, weigh]

end Bracket

/-! ## loose tokens -/

def unreadHead (ts : List Token) : List Token :=
  if ts.head? = some ⟨.symbol, "("⟩ ∧ (handlerName ts).1 = none then [⟨.symbol, "("⟩] else []

/-- the braces that are open in an embedded block after a token; `none` when the block is closed -/
def embeddedDepth (depth : Nat) (t : Token) : Option Nat :=
  if t = ⟨.symbol, "\x7b"⟩ then some (depth + 1)
  else if t = ⟨.symbol, "\x7d"⟩ then (if depth ≤ 1 then none else some (depth - 1))
  else some depth

/-- the tokens of embedded blocks with their braces, and the parentheses of heads that are left; a number is
that of the braces that are open in the embedded block at the front -/
def loose : Option Nat → List Token → List Token
  | _, [] => []
  | none, t :: ts =>
    if t = ⟨.keyword, "ffi"⟩ then loose (some 0) ts
    else if t = ⟨.keyword, "catch"⟩ then unreadHead ts ++ loose none ts
    else loose none ts
  | some depth, t :: ts => t :: loose (embeddedDepth depth t) ts

/-- the excess of the tokens that are not loose -/
def Bracket.debt (b : Bracket) (ts : List Token) : Int := b.weigh ts - b.weigh (loose none ts)

section
variable (b : Bracket)

theorem loose_cons {t : Token} (hf : t ≠ ⟨.keyword, "ffi"⟩) (hc : t ≠ ⟨.keyword, "catch"⟩) (ts : List Token) :
    loose none (t :: ts) = loose none ts := by
  rw [loose, if_neg hf, if_neg hc]

theorem debt_symbol (text : String) (ts : List Token) :
    b.debt (⟨.symbol, text⟩ :: ts) = b.excess text.toList + b.debt ts := by
  have hk : ∀ word, (⟨.symbol, text⟩ : Token) ≠ ⟨.keyword, word⟩ := fun word h => nomatch congrArg Token.kind h
  rw [Bracket.debt, loose_cons (hk _) (hk _), b.weigh_symbol, Bracket.debt]
  omega

theorem debt_other {kind : Token.Kind} (hs : kind ≠ .symbol) (hk : kind ≠ .keyword) (text : String)
    (ts : List Token) : b.debt (⟨kind, text⟩ :: ts) = b.debt ts := by
  have hw : ∀ word, (⟨kind, text⟩ : Token) ≠ ⟨.keyword, word⟩ := fun word h => hk (congrArg Token.kind h)
  rw [Bracket.debt, loose_cons (hw _) (hw _), b.weigh_other hs, Bracket.debt]

theorem loose_embedded (depth : Nat) (ts : List Token) :
    ∃ used, ts = used ++ (embeddedTokens depth ts).2 ∧
      loose (some depth) ts = used ++ loose none (embeddedTokens depth ts).2 := by
  induction ts generalizing depth with
  | nil => exact ⟨[], rfl, rfl⟩
  | cons t ts ih =>
    have hmore : ∀ d, embeddedDepth depth t = some d →
        (embeddedTokens depth (t :: ts)).2 = (embeddedTokens d ts).2 →
        ∃ used, t :: ts = used ++ (embeddedTokens depth (t :: ts)).2 ∧
          loose (some depth) (t :: ts) = used ++ loose none (embeddedTokens depth (t :: ts)).2 := by
      intro d hd he
      obtain ⟨used, hu, ho⟩ := ih d
      rw [he, loose, hd, ho]
      exact ⟨t :: used, congrArg (t :: ·) hu, rfl⟩
    by_cases hr : t = ⟨.symbol, "\x7d"⟩
    · subst hr
      by_cases hd : depth ≤ 1
      · refine ⟨[⟨.symbol, "\x7d"⟩], ?_, ?_⟩
        · simp [embeddedTokens, hd]
        · simp [loose, embeddedDepth, embeddedTokens, hd]
      · refine hmore (depth - 1) ?_ ?_
        · simp [embeddedDepth, hd]
        · simp [embeddedTokens, hd]
    · by_cases hl : t = ⟨.symbol, "\x7b"⟩
      · subst hl
        exact hmore (depth + 1) rfl (by simp [embeddedTokens])
      · refine hmore depth ?_ ?_
        · simp [embeddedDepth, hl, hr]
        · simp [embeddedTokens, hl, hr]

theorem debt_embedded (ts : List Token) :
    b.debt (⟨.keyword, "ffi"⟩ :: ⟨.symbol, "\x7b"⟩ :: ts) = b.debt (embeddedTokens 1 ts).2 := by
  obtain ⟨used, hu, ho⟩ := loose_embedded 1 ts
  have hw : b.weigh ts = b.weigh used + b.weigh (embeddedTokens 1 ts).2 := by
    rw [← Bracket.weigh_append, ← hu]
  have hl : loose none (⟨.keyword, "ffi"⟩ :: ⟨.symbol, "\x7b"⟩ :: ts) =
      ⟨.symbol, "\x7b"⟩ :: (used ++ loose none (embeddedTokens 1 ts).2) := by
    rw [← ho]
    rfl
  rw [Bracket.debt, hl, b.weigh_other (by simp), b.weigh_symbol, b.weigh_symbol, b.weigh_append, hw, Bracket.debt]
  omega

theorem debt_handler (ts : List Token) : b.debt (⟨.keyword, "catch"⟩ :: ts) = b.debt (handlerName ts).2 := by
  have hc : b.debt (⟨.keyword, "catch"⟩ :: ts) = b.debt ts - b.weigh (unreadHead ts) := by
    have hl : loose none (⟨.keyword, "catch"⟩ :: ts) = unreadHead ts ++ loose none ts := rfl
    rw [Bracket.debt, hl, b.weigh_other (by simp), b.weigh_append, Bracket.debt]
    omega
  have hopen : ∀ us, b.debt (⟨.symbol, "("⟩ :: us) - b.weigh [⟨.symbol, "("⟩] = b.debt us := by
    intro us
    have hnil : b.weigh [] = 0 := rfl
    rw [debt_symbol, b.weigh_symbol, hnil]
    omega
  have hname : ∀ name us, b.debt (⟨.ident, name⟩ :: us) = b.debt us := debt_other b (by simp) (by simp)
  have hpair : b.excess "(".toList + b.excess ")".toList = 0 := b.excess_pair .paren
  rw [hc]
  unfold unreadHead handlerName
  split
  · rw [if_neg (by simp), debt_symbol, hname, debt_symbol, show b.weigh [] = 0 from rfl]
    rw [← Int.add_assoc, hpair, Int.zero_add, Int.sub_zero]
  · rw [if_pos (by simp), hopen, hname]
  · rw [if_pos (by simp), hopen]
  · rename_i hno
    have hh : ts.head? ≠ some ⟨.symbol, "("⟩ := by
      intro hh
      obtain ⟨us, rfl⟩ := List.head?_eq_some_iff.mp hh
      exact hno us rfl
    rw [if_neg (fun h => hh h.1), show b.weigh [] = 0 from rfl, Int.sub_zero]

end

/-! ## accounts -/

/-- the punctuation marks that are no brackets -/
def separators : List String := [";", "|", "?", ":", ",", "."]

/-- an account of brackets. What is open is settled by the tokens that follow if the brackets are entered and
crossed out in turn; all other tokens do not count, nor does what is loose. It is kept for lists of the tokens that it
admits. -/
structure Ledger (σ : Type) where
  admits : Token → Prop := fun _ => True
  settles : σ → List Token → Prop
  enter : Bracket → σ → σ
  opens (b : Bracket) {s : σ} {ts : List Token} (h : settles (enter b s) ts) : settles s (⟨.symbol, b.opening⟩ :: ts)
  closes (b : Bracket) {s : σ} {ts : List Token} (h : settles s ts) : settles (enter b s) (⟨.symbol, b.closing⟩ :: ts)
  separates {text : String} (ht : text ∈ separators) {s : σ} {ts : List Token} (h : settles s ts) :
    settles s (⟨.symbol, text⟩ :: ts)
  passes {t : Token} (hs : t.kind ≠ .symbol) (hf : t ≠ ⟨.keyword, "ffi"⟩) (hc : t ≠ ⟨.keyword, "catch"⟩) {s : σ}
    {ts : List Token} (h : settles s ts) : settles s (t :: ts)
  embeds {s : σ} {ts : List Token} (h : settles s (embeddedTokens 1 ts).2) :
    settles s (⟨.keyword, "ffi"⟩ :: ⟨.symbol, "\x7b"⟩ :: ts)
  handles {s : σ} {ts : List Token} (h : settles s (handlerName ts).2) : settles s (⟨.keyword, "catch"⟩ :: ts)

/-- what is open with a bracket more, if there is one -/
def Ledger.under {σ : Type} (A : Ledger σ) : Option Bracket → σ → σ
  | none, s => s
  | some b, s => A.enter b s

def Bracket.ledger (b : Bracket) : Ledger Int where
  settles k ts := k + b.debt ts = 0
  enter c k := k + b.excess c.opening.toList
  opens c {k ts} h := by
    rw [debt_symbol]
    omega
  closes c {k ts} h := by
    have hc := b.excess_pair c
    rw [debt_symbol]
    omega
  separates {text} ht {k ts} h := by
    have hx : b.excess text.toList = 0 := by
      simp only [separators, List.mem_cons, List.not_mem_nil, or_false] at ht
      rcases ht with rfl | rfl | rfl | rfl | rfl | rfl <;> cases b <;> rfl
    rw [debt_symbol]
    omega
  passes {t} hs hf hc {k ts} h := by
    rw [Bracket.debt, loose_cons hf hc, b.weigh_other hs]
    exact h
  embeds {k ts} h := by
    rw [debt_embedded]
    exact h
  handles {k ts} h := by
    rw [debt_handler]
    exact h

end BraceScript
