import BraceScript.Parse.Statement

/-!
# Running readers

What each small reader does on a list of tokens. Together these equations run a reader on a list
whose front is known, so that later proofs never open the readers themselves.

* `bind_run`, `pure_run`, `get_run`, ...   the steps of a reader
* `expect_run`, `symbol_run`, `ident_run`   a reader that takes the token in front of it
* `statement_expression`   a statement that begins with no word of its own is an expression
* `statementsFrom_step`   a block with one statement more
-/

namespace BraceScript.Parse

variable {α β : Type} {ts us : List Token}

/-! ## the steps of a reader -/

@[simp] theorem bind_run (x : Parse α) (f : α → Parse β) (ts : List Token) :
    (x >>= f) ts = match x ts with
      | .ok (a, rest) => f a rest
      | .error e => .error e := by
  show (x ts >>= fun p => f p.1 p.2) = _
  cases x ts with
  | ok p => rfl
  | error e => rfl

theorem bind_ok {x : Parse α} {a : α} (h : x ts = .ok (a, us)) (f : α → Parse β) : (x >>= f) ts = f a us := by
  rw [bind_run, h]

theorem bind_error {x : Parse α} {e : ParseError} (h : x ts = .error e)
    (f : α → Parse β) : (x >>= f) ts = .error e := by
  rw [bind_run, h]

theorem bind_inv {x : Parse α} {f : α → Parse β} {r : β × List Token}
    (h : (x >>= f) ts = .ok r) : ∃ a us, x ts = .ok (a, us) ∧ f a us = .ok r := by
  cases hx : x ts with
  | ok p => exact ⟨p.1, p.2, rfl, by rwa [bind_ok hx] at h⟩
  | error e =>
    rw [bind_error hx] at h
    cases h

@[simp] theorem map_run (f : α → β) (x : Parse α) (ts : List Token) :
    (f <$> x) ts = match x ts with
      | .ok (a, rest) => .ok (f a, rest)
      | .error e => .error e := by
  show (x ts >>= fun p => pure (f p.1, p.2)) = _
  cases x ts with
  | ok p => rfl
  | error e => rfl

@[simp] theorem pure_run (a : α) (ts : List Token) : (pure a : Parse α) ts = .ok (a, ts) := rfl

@[simp] theorem get_run (ts : List Token) : (get : Parse (List Token)) ts = .ok (ts, ts) := rfl

@[simp] theorem set_run (new ts : List Token) : (set new : Parse PUnit) ts = .ok ((), new) := rfl

@[simp] theorem throw_run (e : ParseError) (ts : List Token) :
    (throw e : Parse α) ts = .error e := rfl

@[simp] theorem ite_run (p : Prop) [Decidable p] (x y : Parse α) (ts : List Token) :
    (if p then x else y) ts = if p then x ts else y ts := by
  split <;> rfl

/-! ## looking at the next tokens -/

@[simp] theorem peek_run (ts : List Token) : peek ts = .ok (ts.head?, ts) := rfl

@[simp] theorem peekSecond_run (ts : List Token) : peekSecond ts = .ok (ts.tail.head?, ts) := rfl

@[simp] theorem atText_run (text : String) (ts : List Token) :
    atText text ts = .ok (ts.head?.map Token.text == some text, ts) := rfl

@[simp] theorem atToken_run (kind : Token.Kind) (text : String) (ts : List Token) :
    atToken kind text ts = .ok (ts.head? == some ⟨kind, text⟩, ts) := rfl

/-! ## taking the next token -/

@[simp] theorem expectKind_run (kind : Token.Kind) (text : String) (ts : List Token) :
    expectKind kind (⟨kind, text⟩ :: ts) = .ok (⟨kind, text⟩, ts) := by
  simp [expectKind]

@[simp] theorem expect_run (kind : Token.Kind) (text : String) (ts : List Token) :
    expect kind text (⟨kind, text⟩ :: ts) = .ok ((), ts) := by
  simp [expect]

@[simp] theorem symbol_run (text : String) (ts : List Token) :
    symbol text (⟨.symbol, text⟩ :: ts) = .ok ((), ts) := expect_run .symbol text ts

@[simp] theorem keyword_run (text : String) (ts : List Token) :
    keyword text (⟨.keyword, text⟩ :: ts) = .ok ((), ts) := expect_run .keyword text ts

@[simp] theorem ident_run (name : String) (ts : List Token) :
    ident (⟨.ident, name⟩ :: ts) = .ok (name, ts) := by
  simp [ident]

/-- a token that was taken stood in front -/
theorem expect_inv {kind : Token.Kind} {text : String} {u : Unit}
    (h : expect kind text ts = .ok (u, us)) : ts = ⟨kind, text⟩ :: us := by
  cases ts with
  | nil => cases h
  | cons t ts =>
    obtain ⟨kind', text'⟩ := t
    simp only [expect, bind_run, get_run] at h
    split at h
    · cases h
    · rename_i hk
      split at h
      · cases h
      · rename_i ht
        obtain rfl := Decidable.not_not.mp hk
        obtain rfl := Decidable.not_not.mp ht
        cases h
        rfl

theorem symbol_inv {text : String} {u : Unit} (h : symbol text ts = .ok (u, us)) :
    ts = ⟨.symbol, text⟩ :: us := expect_inv h

theorem optionalSymbol_here (text : String) (ts : List Token) :
    optionalSymbol text (⟨.symbol, text⟩ :: ts) = .ok ((), ts) := by
  simp [optionalSymbol]

theorem optionalSymbol_away {text : String} {t : Token} (h : t.text ≠ text) (ts : List Token) :
    optionalSymbol text (t :: ts) = .ok ((), t :: ts) := by
  simp [optionalSymbol, h]

/-! ## statements -/

def statementWords : List String :=
  ["def", "if", "for", "while", "break", "continue", "return", "global", "try", "throw", "class",
    "include", "ffi", "match"]

theorem statement_expression (g : Grammar) (t : Token) (ts : List Token)
    (h : t.text ∉ statementWords) : statement g (t :: ts) = expression g 0 (t :: ts) := by
  simp only [statement, bind_run, peek_run, List.head?_cons, Option.map_some]
  generalize ho : some t.text = o
  split
  case h_15 => rfl
  all_goals
    injection ho with ho
    exact absurd (by rw [ho]; decide) h

theorem statementsFrom_end (g : Grammar) (close : Option String) (fuel : Nat) :
    statementsFrom g close (fuel + 1) [] = .ok ([], []) := by
  simp [statementsFrom]

theorem statementsFrom_close (g : Grammar) (fuel : Nat) (t : Token) (ts : List Token) :
    statementsFrom g (some t.text) (fuel + 1) (t :: ts) = .ok ([], t :: ts) := by
  simp [statementsFrom]

theorem statementsFrom_more (g : Grammar) (fuel : Nat) (t : Token) (ts : List Token) :
    statementsFrom g none (fuel + 1) (t :: ts) =
      (statement g >>= fun s => statementsFrom g none fuel >>= fun rest => pure (s :: rest)) (t :: ts) := by
  rw [statementsFrom, bind_ok (peek_run (t :: ts))]
  rfl

theorem statementsFrom_step {g : Grammar} {close : Option String} {fuel : Nat} {t : Token} {rest : List Token}
    {s : Node} {body : List Node} (hc : close ≠ some t.text) (hs : statement g (t :: ts) = .ok (s, us))
    (hr : statementsFrom g close fuel us = .ok (body, rest)) :
    statementsFrom g close (fuel + 1) (t :: ts) = .ok (s :: body, rest) := by
  rw [statementsFrom]
  simp [hc, hs, hr]

end BraceScript.Parse
