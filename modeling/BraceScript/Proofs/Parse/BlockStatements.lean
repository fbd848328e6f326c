import BraceScript.Proofs.Parse.Boundary
import BraceScript.Proofs.Print.Expr

/-!
# Blocks in expressions

Braces in an expression hold a dictionary or a block, and a scan ahead decides which: it looks for a colon or a
bar outside of inner braces. The colon of a conditional or of a slice is found as well. A block is then begun as
a dictionary, and the expression that was read for its first key is lost.

* `MarkedOutside`          a colon or a bar stands outside of inner braces
* `holdsEntries_iff`       the scan finds these
* `statementsFrom_fuel`    more steps than tokens make no difference
* `primary_block`          which statements of a block are kept
-/

namespace BraceScript

namespace Parse

/-- a colon or a bar stands among the tokens where all braces that are opened before it are closed -/
def MarkedOutside (ts : List Token) : Prop :=
  ∃ before t after, ts = before ++ t :: after ∧ (t.text = ":" ∨ t.text = "|") ∧ braceDepth 0 before = some 0

/-- the scan at a depth finds a colon or a bar before which all braces but the first are closed -/
theorem holdsEntries_succ (d : Nat) (ts : List Token) :
    holdsEntries (d + 1) ts = true ↔ ∃ before t after, ts = before ++ t :: after ∧
      (t.text = ":" ∨ t.text = "|") ∧ braceDepth d before = some 0 := by
  induction ts generalizing d with
  | nil => simp [holdsEntries]
  | cons u ts ih =>
    -- the mark is the first token, or stands in the rest after the depth has changed by the first token
    have hcons : (∃ before t after, u :: ts = before ++ t :: after ∧ (t.text = ":" ∨ t.text = "|") ∧
        braceDepth d before = some 0) ↔ (u.text = ":" ∨ u.text = "|") ∧ d = 0 ∨
        ∃ before t after, ts = before ++ t :: after ∧ (t.text = ":" ∨ t.text = "|") ∧
          braceDepth d (u :: before) = some 0 := by
      constructor
      · rintro ⟨before, t, after, he, ht, hd⟩
        cases before with
        | nil =>
          cases he
          exact Or.inl ⟨ht, Option.some.inj hd⟩
        | cons b before =>
          cases he
          exact Or.inr ⟨before, t, after, rfl, ht, hd⟩
      · rintro (⟨hu, rfl⟩ | ⟨before, t, after, rfl, ht, hd⟩)
        · exact ⟨[], u, ts, rfl, hu, rfl⟩
        · exact ⟨u :: before, t, after, rfl, ht, hd⟩
    rw [hcons, holdsEntries]
    by_cases ho : u.text = "\x7b"
    · simp [ho, ih, braceDepth]
    · by_cases hc : u.text = "\x7d"
      · cases d with
        | zero => simp [hc, braceDepth]
        | succ d => simp [hc, ih, braceDepth]
      · by_cases hm : u.text = ":" ∨ u.text = "|"
        · cases d with
          | zero => rcases hm with hm | hm <;> simp [hm]
          | succ d => simp [ho, hc, ih, braceDepth]
        · simp [ho, hc, not_or.mp hm, ih, braceDepth]

theorem holdsEntries_iff (ts : List Token) : holdsEntries 1 ts = true ↔ MarkedOutside ts :=
  holdsEntries_succ 0 ts

/-- the number of steps makes no difference once it is above the number of tokens -/
theorem statementsFrom_fuel {n : Nat} (close : Option String) {ts : List Token} (hn : ts.length ≤ n)
    {fuel fuel' : Nat} (hf : ts.length < fuel) (hf' : ts.length < fuel') :
    statementsFrom (grammar n) close fuel ts = statementsFrom (grammar n) close fuel' ts := by
  induction fuel generalizing ts fuel' with
  | zero => omega
  | succ fuel ih =>
    obtain ⟨fuel', rfl⟩ : ∃ k, fuel' = k + 1 := ⟨fuel' - 1, by omega⟩
    cases ts with
    | nil => rw [statementsFrom_end, statementsFrom_end]
    | cons t ts =>
      simp only [statementsFrom, bind_ok (peek_run (t :: ts)), List.head?_cons, ite_run]
      split
      · rfl
      · cases hs : statement (grammar n) (t :: ts) with
        | error e => rw [bind_error hs, bind_error hs]
        | ok p =>
          have hlen := statement_shorter hn hs
          have he := @ih p.2 (by omega) fuel' (by omega) (by omega)
          rw [bind_ok hs, bind_ok hs, bind_run, bind_run, he]

theorem block_inv {n : Nat} {ts rest : List Token} {s : Node} {body : List Node} (hn : ts.length ≤ n)
    (h : block (grammar n) ts = .ok (s :: body, rest)) :
    (ts.head?.map Token.text == some "\x7d") = false ∧ ∃ us, statement (grammar n) ts = .ok (s, us) ∧
      block (grammar n) us = .ok (body, rest) := by
  cases ts with
  | nil => cases h
  | cons t ts =>
    simp only [block, statementsFrom, bind_ok (get_run (t :: ts)), bind_ok (peek_run (t :: ts)), List.head?_cons,
      ite_run] at h
    split at h
    · cases h
    · rename_i hc
      obtain ⟨s', us, hs, h⟩ := bind_inv h
      obtain ⟨body', vs, hb, h⟩ := bind_inv h
      cases h
      refine ⟨by simpa using Ne.symm hc, us, hs, ?_⟩
      have hlen := statement_shorter hn hs
      rw [block, bind_ok (get_run us), ← hb]
      exact statementsFrom_fuel _ (by omega) (Nat.lt_succ_self _) hlen

end Parse

open Parse

/-- **Which statements a block keeps.** Take tokens that are read, between braces, as the body of a function. In
an expression they are read as the block of all its statements if no colon or bar stands in them outside of inner
braces. Otherwise, if the first statement is an expression without a colon or a bar right after it, the block has
all statements but the first. -/
theorem primary_block {n : Nat} {ts rest : List Token} {s : Node} {body : List Node}
    (hn : (ts ++ mark "\x7d" :: rest).length ≤ n)
    (h : braces (grammar (n + 1)) (mark "\x7b" :: (ts ++ mark "\x7d" :: rest)) = .ok (s :: body, rest)) :
    (¬ MarkedOutside (ts ++ mark "\x7d" :: rest) →
      primary (grammar (n + 1)) (mark "\x7b" :: (ts ++ mark "\x7d" :: rest)) = .ok (.block (s :: body), rest)) ∧
    (MarkedOutside (ts ++ mark "\x7d" :: rest) → ∀ us,
      statement (grammar n) (ts ++ mark "\x7d" :: rest) = .ok (s, us) →
      (grammar (n + 1)).expr 0 (ts ++ mark "\x7d" :: rest) = .ok (s, us) →
      (∀ t ∈ us.head?, t.text ≠ ":" ∧ t.text ≠ "|") →
      primary (grammar (n + 1)) (mark "\x7b" :: (ts ++ mark "\x7d" :: rest)) = .ok (.block body, rest)) := by
  generalize ts ++ mark "\x7d" :: rest = us at hn h ⊢
  obtain ⟨_, _, ho, h⟩ := bind_inv h
  cases symbol_inv ho
  obtain ⟨all, vs, hb, h⟩ := bind_inv h
  obtain ⟨_, _, hc, h⟩ := bind_inv h
  cases symbol_inv hc
  cases h
  obtain ⟨hfirst, ws, hs, hrest⟩ := block_inv hn hb
  -- what is read after the opening brace depends on the scan
  have hrun : primary (grammar (n + 1)) (mark "\x7b" :: us) =
      (if holdsEntries 1 us = true then do
        let key ← (grammar (n + 1)).expr 0
        if ← atText "|" then dictComprehension (grammar (n + 1)) key
        else if ← atText ":" then dictEntries (grammar (n + 1)) key
        else blockRest (grammar (n + 1))
      else blockRest (grammar (n + 1))) us := by
    simp [primary, operand, braced, hfirst]
  have hblock : ∀ {vs as}, (grammar (n + 1)).block vs = .ok (as, mark "\x7d" :: rest) →
      blockRest (grammar (n + 1)) vs = .ok (.block as, rest) := by
    intro vs as h
    rw [blockRest, bind_ok h]
    simp
  refine ⟨fun hm => ?_, fun hm vs hv he hu => ?_⟩
  · rw [hrun, if_neg (fun h => hm ((holdsEntries_iff us).mp h))]
    exact hblock hb
  · cases hs.symm.trans hv
    have haway : ∀ w, (∀ t ∈ ws.head?, t.text ≠ w) → (ws.head?.map Token.text == some w) = false := by
      intro w hw
      cases ws with
      | nil => rfl
      | cons t ws => simpa using hw t rfl
    rw [hrun, if_pos ((holdsEntries_iff us).mpr hm), bind_ok he]
    simp only [bind_run, atText_run, haway _ fun t ht => (hu t ht).2, haway _ fun t ht => (hu t ht).1,
      Bool.false_eq_true, if_false]
    exact hblock hrest

/-- the tokens `x ? y : z` -/
def choiceTokens : List Token := [⟨.ident, "x"⟩, mark "?", ⟨.ident, "y"⟩, mark ":", ⟨.ident, "z"⟩]

/-- a block of one conditional is read as an empty block -/
theorem primary_block_choice :
    braces (grammar 7) (mark "\x7b" :: (choiceTokens ++ [mark "\x7d"])) =
        .ok ([.ternary (.var "x") (.var "y") (.var "z")], []) ∧
      primary (grammar 7) (mark "\x7b" :: (choiceTokens ++ [mark "\x7d"])) = .ok (.block [], []) := by
  have h : braces (grammar 7) (mark "\x7b" :: (choiceTokens ++ [mark "\x7d"])) =
      .ok ([.ternary (.var "x") (.var "y") (.var "z")], []) := rfl
  have hm : MarkedOutside (choiceTokens ++ [mark "\x7d"]) := (holdsEntries_iff _).mp rfl
  refine ⟨h, (primary_block (by decide) h).2 hm [mark "\x7d"] rfl rfl ?_⟩
  decide

end BraceScript
