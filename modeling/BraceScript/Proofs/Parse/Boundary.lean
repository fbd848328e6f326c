import BraceScript.Proofs.Parse.AgreeReaders
import BraceScript.Proofs.Parse.Progress

/-!
# Programs one after the other

Statements are not separated by a mark, so a reader finds the end of a statement by looking at the next
token. A reserved word that begins a statement ends the one before it, as the end of the tokens does.

* `Change.ending`           a change that only puts tokens at the end
* `statementsFrom_settled`  more depth and more steps than tokens make no difference
* `statementsFrom_append`   what follows a list of statements is read as if it stood alone
* `parse_append`            a program and one that follows it
-/

namespace BraceScript

open Parse
open List (Forall₂)

namespace Change

theorem inert_of_eq {s s' : String} (h : s = s') : s = s' ∨ s ∉ steering ∧ s' ∉ steering := Or.inl h

/-- tokens are put at the end, and nothing else is changed -/
def ending (tail : List Token) (h : tail = [] ∨ OpensStatement tail) : Change := ⟨Eq, tail, inert_of_eq, h⟩

variable {tail : List Token} {h : tail = [] ∨ OpensStatement tail}

theorem ending_like (ts : List Token) : (ending tail h).Like ts (ts ++ tail) := by
  induction ts with
  | nil => exact .nil
  | cons t ts ih =>
    obtain ⟨kind, text⟩ := t
    by_cases hk : kind = .string
    · subst hk
      exact .cons (.string rfl) ih
    · exact .cons (.same hk) ih

/-- a list is near to itself when nothing is put at the end -/
theorem near_self (ts : List Token) : (ending [] (Or.inl rfl)).Near ts ts := by
  have hl : (ending [] (Or.inl rfl)).Like ts (ts ++ []) := ending_like ts
  rw [List.append_nil] at hl
  exact ⟨hl, Or.inl rfl⟩

theorem Like.eq_append {ts ts' : List Token} (hl : (ending tail h).Like ts ts') : ts' = ts ++ tail := by
  induction hl with
  | nil => rfl
  | cons ha _ ih => rw [ha.eq_of_eq, ih, List.cons_append]

theorem ending_trees {as bs : List Node} (hs : Forall₂ (ending tail h).Tree as bs) : as = bs := by
  have hs' : Forall₂ Eq as bs := hs.imp fun _ _ => Node.Alike.eq_of_eq
  rwa [List.forall₂_eq_eq_eq] at hs'

theorem ending_similar {e e' : ParseError} (he : (ending tail h).Similar e e') : e = e' := by
  rcases he with he | ⟨s, s', hs, hne, -⟩
  · exact he
  · exact absurd hs hne

theorem ending_not_trips {e : ParseError} : ¬ (ending tail h).Trips e := by
  rintro ⟨hs, hne, -, -⟩
  exact hne hs

end Change

namespace Parse

open Change

/-- the depth of nesting and the number of steps make no difference once they are above the number of
tokens -/
theorem statementsFrom_settled {n m fuel : Nat} {ts : List Token} (hn : ts.length ≤ n) (hm : n ≤ m)
    (hf : ts.length < fuel) :
    statementsFrom (grammar n) none (ts.length + 1) ts = statementsFrom (grammar m) none fuel ts := by
  have ho := agree_program (grammar_agree (ending [] (Or.inl rfl)) hm) rfl hf ts ts (near_self ts)
  have hin : Within Ledger.free (ts.length + 1) ts := .free (Nat.lt_succ_self _)
  have he := meets_statementsFrom (grammar_meets Ledger.free n) none (Nat.succ_le_succ hn) ts hin
  generalize hx : statementsFrom (grammar n) none (ts.length + 1) ts = x at ho he ⊢
  generalize hy : statementsFrom (grammar m) none fuel ts = y at ho ⊢
  cases ho with
  | ok h _ => rw [statementsFrom_all hx, statementsFrom_all hy, ending_trees h]
  | fails h => rw [ending_similar h]
  | lax h =>
    -- a run with enough depth fails only for a cause in the tokens
    cases h with
    | deep =>
      cases he with
      | error hf => cases hf
    | atEnd h => exact absurd rfl h
    | stumble hs hne _ _ => exact absurd hs hne
  | trips h => exact absurd h ending_not_trips

/-- a statement that is read with the tokens of its list is read in the same way with more at the end -/
theorem statement_append {tail : List Token} (ht : OpensStatement tail) {n m : Nat} (hm : n ≤ m)
    {ts us : List Token} {d : Nat} (hb : Closes d ts) {s : Node}
    (hs : statement (grammar n) ts = .ok (s, us)) :
    statement (grammar m) (ts ++ tail) = .ok (s, us ++ tail) ∧ ∃ d', Closes d' us := by
  have hn : (ending tail (Or.inr ht)).Near ts (ts ++ tail) := ⟨ending_like ts, Or.inr ⟨d, hb⟩⟩
  have ho := agree_statement (grammar_agree _ hm) ts (ts ++ tail) hn
  rw [hs] at ho
  generalize statement (grammar m) (ts ++ tail) = y at ho ⊢
  cases ho with
  | ok h hn' =>
    obtain rfl := Node.Alike.eq_of_eq h
    obtain ⟨hl, hc⟩ := hn'
    have hne : tail ≠ [] := by
      obtain ⟨t, vs, rfl, -⟩ := ht
      exact List.cons_ne_nil t vs
    exact ⟨by rw [hl.eq_append], hc.resolve_left hne⟩
  | trips h => exact absurd h ending_not_trips

theorem statement_shorter {n : Nat} {ts us : List Token} {s : Node} (hn : ts.length ≤ n)
    (h : statement (grammar n) ts = .ok (s, us)) : us.length < ts.length := by
  have he := meets_statement (grammar_meets Ledger.free n) ts (.free (Nat.lt_succ_of_le hn))
  rw [h] at he
  cases he with
  | ok hl => exact hl.2

/-- **What follows a list of statements is read as if it stood alone**, with steps to spare. -/
theorem statementsFrom_append {tail : List Token} (ht : OpensStatement tail) {n m : Nat} (hm : n ≤ m)
    {fuel fuel' : Nat} {ts : List Token} {d : Nat} (hb : Closes d ts) (hlen : (ts ++ tail).length ≤ m)
    (hf : (ts ++ tail).length < fuel') {as : List Node} {rest : List Token}
    (h : statementsFrom (grammar n) none fuel ts = .ok (as, rest)) :
    ∃ fuel'', tail.length < fuel'' ∧ statementsFrom (grammar m) none fuel' (ts ++ tail) =
      (statementsFrom (grammar m) none fuel'' tail).map fun p => (as ++ p.1, p.2) := by
  induction fuel generalizing fuel' ts d as with
  | zero => cases h
  | succ fuel ih =>
    cases ts with
    | nil =>
      cases h
      refine ⟨fuel', hf, ?_⟩
      rw [List.nil_append]
      cases statementsFrom (grammar m) none fuel' tail with
      | ok p => rfl
      | error e => rfl
    | cons t ts =>
      rw [statementsFrom_more] at h
      obtain ⟨s, us, hs, h⟩ := bind_inv h
      obtain ⟨more, vs, hr, h⟩ := bind_inv h
      cases h
      obtain ⟨hs', d', hb'⟩ := statement_append ht hm hb hs
      -- the statement takes a token, so the steps that are left are enough
      have hshort := statement_shorter hlen hs'
      obtain ⟨fuel', rfl⟩ : ∃ k, fuel' = k + 1 := ⟨fuel' - 1, by omega⟩
      obtain ⟨fuel'', hlt, he⟩ := @ih fuel' us d' hb' (by omega) (by omega) more hr
      refine ⟨fuel'', hlt, ?_⟩
      rw [List.cons_append, statementsFrom_more, ← List.cons_append, bind_ok hs']
      rw [bind_run, he]
      cases statementsFrom (grammar m) none fuel'' tail with
      | ok p => rfl
      | error e => rfl

end Parse

/-- **Reading is local at the boundary of statements.** A program that closes its braces, followed by a
reserved word that begins a statement, is read as it is alone, and what follows is read as it is alone: to
its statements, or to its error. -/
theorem parse_append {first second : List Token} {body : List Node} (h : parse first = .ok body)
    (hb : Closes 0 first) (ho : OpensStatement second) :
    parse (first ++ second) = (parse second).map (body ++ ·) := by
  have hm : first.length + 1 ≤ (first ++ second).length + 1 := by
    rw [List.length_append]
    omega
  have hn : second.length + 1 ≤ (first ++ second).length + 1 := by
    rw [List.length_append]
    omega
  obtain ⟨fuel, hf, he⟩ :=
    statementsFrom_append ho hm hb (by omega) (Nat.lt_succ_self _) (program_of_parse h)
  rw [parse_eq, parse_eq, program, program, bind_ok (get_run _), bind_ok (get_run _), he,
    statementsFrom_settled (Nat.le_succ _) hn hf]
  cases statementsFrom (grammar ((first ++ second).length + 1)) none fuel second with
  | ok q => rfl
  | error e => rfl

def dictAssignment : List Token :=
  [⟨.ident, "x"⟩, ⟨.op, "="⟩, ⟨.symbol, "\x7b"⟩, ⟨.string, "k"⟩, ⟨.symbol, ":"⟩, ⟨.ident, "y"⟩, ⟨.symbol, "\x7d"⟩]

/-- a statement after a dictionary, whole and cut short -/
theorem parse_append_return :
    parse dictAssignment = .ok [.assign "x" (.dict [(.str "k", .var "y")])] ∧
    parse (dictAssignment ++ [⟨.keyword, "return"⟩, ⟨.ident, "x"⟩]) =
      .ok [.assign "x" (.dict [(.str "k", .var "y")]), .ret (some (.var "x"))] ∧
    parse (dictAssignment ++ [⟨.keyword, "return"⟩]) = .error (.unexpected none) := by
  have h : parse dictAssignment = .ok [.assign "x" (.dict [(.str "k", .var "y")])] := rfl
  have hb : Closes 0 dictAssignment := ⟨by decide, rfl⟩
  have ho : ∀ ts, OpensStatement (⟨.keyword, "return"⟩ :: ts) := fun ts => ⟨_, ts, rfl, rfl, by decide⟩
  refine ⟨h, ?_, ?_⟩
  · rw [parse_append h hb (ho _)]
    rfl
  · rw [parse_append h hb (ho _)]
    rfl

end BraceScript
