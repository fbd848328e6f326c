import BraceScript.Proofs.Parse.Reader
import BraceScript.Proofs.Print.Expr
import BraceScript.Proofs.Token.Literal
import Mathlib.Data.List.Forall2

/-!
# Reading the pieces of a written expression

* `Ends`      the tokens after an expression that cannot continue it
* `Reads`     a reader takes the tokens of an expression and gives its tree
* `untilText_commas`, `whileNext_commas`   readers of pieces with commas between them
-/

namespace BraceScript

variable {t : Token} {ts rest : List Token}

/-! ## what may stand after an expression -/

/-- the marks that end an expression -/
def closers : List Token := [mark ")", mark "]", mark "\x7d", mark ",", mark ":"]

/-- an expression cannot go on with these tokens -/
def Ends (rest : List Token) : Prop := ∀ t ∈ rest.head?, t ∈ closers

def EndsName (rest : List Token) : Prop :=
  ∀ t ∈ rest.head?, t ≠ mark "." ∧ t ≠ mark "[" ∧ t ≠ ⟨.op, "="⟩ ∧ t.kind ≠ .augAssign

theorem ends_nil : Ends [] := by simp [Ends]

theorem ends_cons (ts : List Token) (h : t ∈ closers) : Ends (t :: ts) := by
  intro u hu
  rw [List.head?_cons, Option.mem_some_iff] at hu
  exact hu ▸ h

theorem Ends.head_ne (h : Ends rest) (ht : t ∉ closers) : rest.head? ≠ some t := fun e => ht (h t e)

theorem endsName_cons (ts : List Token)
    (h : t ≠ mark "." ∧ t ≠ mark "[" ∧ t ≠ ⟨.op, "="⟩ ∧ t.kind ≠ .augAssign) : EndsName (t :: ts) := by
  intro u hu
  rw [List.head?_cons, Option.mem_some_iff] at hu
  exact hu ▸ h

theorem EndsName.unassigned (h : EndsName rest) : ∀ t ∈ rest.head?, t ≠ ⟨.op, "="⟩ ∧ t.kind ≠ .augAssign :=
  fun t ht => (h t ht).2.2

theorem Ends.name (h : Ends rest) : EndsName rest := by
  intro t ht
  have hc := h t ht
  simp only [closers, List.mem_cons, List.not_mem_nil, or_false] at hc
  rcases hc with rfl | rfl | rfl | rfl | rfl <;> decide

namespace Parse

variable {g : Grammar} {least : Nat} {node : Node}

theorem extend_closer (g : Grammar) (least : Nat) (node : Node) (h : t ∈ closers)
    (ts : List Token) : extend g least node t ts = .ok (none, ts) := by
  simp only [closers, List.mem_cons, List.not_mem_nil, or_false] at h
  rcases h with rfl | rfl | rfl | rfl | rfl <;> simp [extend]

theorem operatorsFrom_ends (g : Grammar) (least fuel : Nat) (node : Node)
    (h : Ends rest) : operatorsFrom g least (fuel + 1) node rest = .ok (node, rest) := by
  cases rest with
  | nil => simp [operatorsFrom]
  | cons t ts =>
    have ht : t ∈ closers := h t rfl
    simp [operatorsFrom, extend_closer g least node ht]

/-- an expression is its first operand if nothing follows that goes on with it -/
theorem expression_ends (hp : primary g ts = .ok (node, rest))
    (h : Ends rest) : expression g least ts = .ok (node, rest) := by
  simp [expression, hp, operatorsFrom_ends g least _ node h]

theorem operatorsFrom_extend {tail : List Token} {left : Node} {more : Bool} (fuel : Nat)
    (hx : extend g least left t (t :: tail) = .ok (some (node, more), rest)) :
    operatorsFrom g least (fuel + 1) left (t :: tail) =
      if more then operatorsFrom g least fuel node rest else .ok (node, rest) := by
  rw [operatorsFrom]
  cases more with
  | false => simp [hx]
  | true => simp [hx]

/-- an expression of one operator, after which nothing goes on with it -/
theorem expression_extend {tail : List Token} {left : Node} {more : Bool}
    (hp : primary g ts = .ok (left, t :: tail))
    (hx : extend g least left t (t :: tail) = .ok (some (node, more), rest)) (h : Ends rest) :
    expression g least ts = .ok (node, rest) := by
  simp only [expression, bind_run, hp, get_run, List.length_cons]
  rw [operatorsFrom_extend _ hx, operatorsFrom_ends g least _ node h]
  exact ite_self _

end Parse

/-! ## the first token -/

/-- the text of a number is none that a reader looks for -/
theorem toString_free (n : Nat) : toString n ∉ reservedTexts := by
  have solid : ∀ s ∈ reservedTexts, s.toList.all Char.isDigit = false := by decide
  intro h
  have hd : (toString n).toList.all Char.isDigit = true := by
    rw [Nat.toString_eq_ofList_toDigits, String.toList_ofList, List.all_eq_true]
    exact fun c hc => Nat.isDigit_of_mem_toDigits (by decide) (by decide) hc
  rw [solid _ h] at hd
  exact Bool.noConfusion hd

/-- a token that can begin a part of an expression -/
def Opens (t : Token) : Prop := t.text = "(" ∨ t.text ∉ reservedTexts

theorem Opens.ne (h : Opens t) {s : String} (hs : s ∈ reservedTexts) (hp : s ≠ "(") : t.text ≠ s := by
  rintro rfl
  rcases h with h | h
  · exact hp h
  · exact h hs

/-- a part of an expression begins with a token that opens it; a name is the only token of its part -/
theorem Expr.wrapped_opens (e : Expr) :
    ∃ t ts, e.wrapped = t :: ts ∧ Opens t ∧ (t.kind = .ident → ts = []) := by
  cases e with
  | num n => exact ⟨_, _, rfl, Or.inr (toString_free n), fun _ => rfl⟩
  | str s => exact ⟨_, _, rfl, Or.inr s.free, fun _ => rfl⟩
  | var x => exact ⟨_, _, rfl, Or.inr x.free, fun _ => rfl⟩
  | _ => exact ⟨_, _, rfl, Or.inl rfl, fun h => nomatch h⟩

theorem Expr.wrapped_compound {e : Expr} (h : e.isAtom = false) : e.wrapped = parens e.print := by
  simp [wrapped, enclose, h]

/-! ## operands -/

def ReadsBare (g : Parse.Grammar) (e : Expr) : Prop :=
  ∀ rest, Ends rest → g.expr 0 (e.print ++ rest) = .ok (e.node, rest)

/-- the readers take an expression that is written as a part of another one -/
def Reads (g : Parse.Grammar) (e : Expr) : Prop :=
  ∀ least rest, Ends rest → g.expr least (e.wrapped ++ rest) = .ok (e.node, rest)

namespace Parse

theorem atToken_away (h : ∀ u ∈ rest.head?, u ≠ t) : (rest.head? == some t) = false := by
  cases rest with
  | nil => rfl
  | cons u us =>
    have hu : u ≠ t := h u rfl
    simp [hu]

theorem attributesFrom_ends (fuel : Nat) (node : Node) (h : EndsName rest) :
    attributesFrom (fuel + 1) node rest = .ok (node, rest) := by
  have hd := atToken_away (t := mark ".") fun u hu => (h u hu).1
  simp_all [attributesFrom]

theorem elementsFrom_ends (g : Grammar) (fuel : Nat) (node : Node)
    (h : EndsName rest) : elementsFrom g (fuel + 1) node rest = .ok (node, rest) := by
  have hd := atToken_away (t := mark "[") fun u hu => (h u hu).2.1
  simp_all [elementsFrom]

/-- a name with its attributes and elements, to which nothing is assigned -/
theorem nameOrAssignment_ends {g : Grammar} {x : String} {mid : List Token} {node result : Node}
    (ha : attributesFrom (ts.length + 1) (.var x) ts = .ok (node, mid))
    (he : elementsFrom g (mid.length + 1) node mid = .ok (result, rest))
    (h : ∀ u ∈ rest.head?, u ≠ ⟨.op, "="⟩ ∧ u.kind ≠ .augAssign) :
    nameOrAssignment g (⟨.ident, x⟩ :: ts) = .ok (result, rest) := by
  have hd := atToken_away (t := ⟨.op, "="⟩) fun u hu => (h u hu).1
  have hk : (rest.head?.map Token.kind == some .augAssign) = false := by
    cases rest with
    | nil => rfl
    | cons u us =>
      have hu : u.kind ≠ .augAssign := (h u rfl).2
      simp [hu]
  simp only [nameOrAssignment, bind_run, ident_run, get_run, ha, he, atToken_run, hd, ite_run,
    peek_run, hk, Bool.false_eq_true, if_false, pure_run]

theorem primary_ident (g : Grammar) (x : String) (ts : List Token) :
    primary g (⟨.ident, x⟩ :: ts) = nameOrAssignment g (⟨.ident, x⟩ :: ts) := by
  simp [primary]

theorem primary_var (g : Grammar) (x : String) (h : EndsName rest) :
    primary g (⟨.ident, x⟩ :: rest) = .ok (.var x, rest) := by
  rw [primary_ident]
  exact nameOrAssignment_ends (attributesFrom_ends _ _ h) (elementsFrom_ends g _ _ h) h.unassigned

theorem primary_num (g : Grammar) {n : Nat} (h : n < 10 ^ maxDigits) (rest : List Token) :
    primary g (⟨.number, toString n⟩ :: rest) = .ok (.num (.int n), rest) := by
  simp only [primary, bind_run, peek_run, List.head?_cons, expectKind_run, integer,
    readInt_toString h, pure_run]

theorem primary_str (g : Grammar) (s : String) (rest : List Token) :
    primary g (⟨.string, s⟩ :: rest) = .ok (.str s, rest) := by
  simp [primary]

theorem primary_parens {g : Grammar} {e : Expr} (h : ReadsBare g e) (rest : List Token) :
    primary g (parens e.print ++ rest) = .ok (e.node, rest) := by
  have hb := h (mark ")" :: rest) (ends_cons rest (by decide))
  rw [mark] at hb
  simp [primary, operand, parenthesized, parens, hb]

/-- an operand written as a part of another expression; a name must not go on -/
theorem primary_wrapped {g : Grammar} {e : Expr} (hs : e.Sound) (hb : e.isAtom = false → ReadsBare g e)
    (h : ∀ x, e = .var x → EndsName rest) : primary g (e.wrapped ++ rest) = .ok (e.node, rest) := by
  cases hs with
  | num short => exact primary_num g short rest
  | str => exact primary_str g _ rest
  | var => exact primary_var g _ (h _ rfl)
  | _ => exact primary_parens (hb rfl) rest

theorem reads_of_bare {n : Nat} {e : Expr} (hs : e.Sound)
    (hb : e.isAtom = false → ReadsBare (grammar n) e) : Reads (grammar (n + 1)) e := by
  intro least rest h
  show expression (grammar n) least (e.wrapped ++ rest) = _
  exact expression_ends (primary_wrapped hs hb fun _ _ => h.name) h

end Parse

/-! ## pieces with commas between them -/

theorem commas_cons (p : List Token) (ps : List (List Token)) :
    commas (p :: ps) = p ++ ps.flatMap fun q => mark "," :: q := by
  induction ps generalizing p with
  | nil => simp [commas]
  | cons q ps ih => rw [commas, ih, List.flatMap_cons, List.cons_append]

theorem length_le_commas {ps : List (List Token)} (h : ∀ p ∈ ps, p ≠ []) :
    ps.length ≤ (commas ps).length := by
  induction ps with
  | nil => exact Nat.le_refl 0
  | cons p ps ih =>
    have hp : 0 < p.length := List.length_pos_iff.mpr (h p List.mem_cons_self)
    have ih' := ih fun q hq => h q (List.mem_cons_of_mem _ hq)
    cases ps with
    | nil => exact hp
    | cons q ps =>
      simp only [commas, List.length_append, List.length_cons] at ih' ⊢
      omega

namespace Parse

variable {α : Type} {step : Parse α} {ps : List (List Token)} {as : List α}

/-- a reader takes a piece and the comma after it, or stops before the closing mark -/
structure TakesPiece (step : Parse α) (close : String) (piece : List Token) (a : α) : Prop where
  more : ∀ rest, step (piece ++ mark "," :: rest) = .ok (a, rest)
  last : ∀ rest, step (piece ++ mark close :: rest) = .ok (a, mark close :: rest)
  first : ∃ t ts, piece = t :: ts ∧ t.text ≠ close

theorem untilTextFrom_close (close : String) (step : Parse α) (fuel : Nat) (rest : List Token) :
    untilTextFrom close step (fuel + 1) (mark close :: rest) = .ok ([], mark close :: rest) := by
  simp [untilTextFrom]

theorem untilTextFrom_step {close : String} {us : List Token} {a : α} {fuel : Nat}
    (hf : ∃ t vs, ts = t :: vs ∧ t.text ≠ close) (hs : step ts = .ok (a, us))
    (hr : untilTextFrom close step fuel us = .ok (as, rest)) :
    untilTextFrom close step (fuel + 1) ts = .ok (a :: as, rest) := by
  obtain ⟨t, vs, rfl, ht⟩ := hf
  rw [untilTextFrom]
  simp [ht, hs, hr]

theorem length_le_append {n : Nat} {ts : List Token} (h : n ≤ ts.length) (rest : List Token) :
    n ≤ (ts ++ rest).length := by
  rw [List.length_append]
  exact Nat.le_add_right_of_le h

theorem untilTextFrom_commas {close : String} (h : List.Forall₂ (TakesPiece step close) ps as)
    (rest : List Token) (k : Nat) :
    untilTextFrom close step (k + ps.length + 1) (commas ps ++ mark close :: rest) =
      .ok (as, mark close :: rest) := by
  induction h with
  | nil => exact untilTextFrom_close close step k rest
  | @cons p a ps as hp _ ih =>
    obtain ⟨t, ts, rfl, ht⟩ := hp.first
    cases ps with
    | nil => exact untilTextFrom_step ⟨t, _, rfl, ht⟩ (hp.last rest) ih
    | cons q ps =>
      rw [commas, List.append_assoc]
      exact untilTextFrom_step ⟨t, _, rfl, ht⟩ (hp.more _) ih

/-- a reader repeated up to a closing mark takes pieces with commas between them -/
theorem untilText_commas {close : String} (h : List.Forall₂ (TakesPiece step close) ps as) (rest : List Token) :
    untilText close step (commas ps ++ mark close :: rest) = .ok (as, mark close :: rest) := by
  have hne : ∀ p ∈ ps, p ≠ [] := by
    clear rest
    induction h with
    | nil => simp
    | cons hp _ ih =>
      obtain ⟨t, ts, rfl, _⟩ := hp.first
      simpa using ih
  have hl := length_le_append (length_le_commas hne) (mark close :: rest)
  simp only [untilText, bind_run, get_run]
  rw [← Nat.sub_add_cancel hl]
  exact untilTextFrom_commas h rest _

/-- a reader takes a piece that stands after a comma -/
def TakesNext (step : Parse α) (piece : List Token) (a : α) : Prop :=
  ∀ rest, Ends rest → step (mark "," :: piece ++ rest) = .ok (a, rest)

theorem ends_flatMap_comma (ps : List (List Token)) (ht : t ∈ closers)
    (rest : List Token) : Ends ((ps.flatMap fun q => mark "," :: q) ++ t :: rest) := by
  cases ps with
  | nil => exact ends_cons rest ht
  | cons q ps => exact ends_cons _ (by decide)

theorem length_le_flatMap_comma (ps : List (List Token)) :
    ps.length ≤ (ps.flatMap fun q => mark "," :: q).length := by
  induction ps with
  | nil => exact Nat.le_refl 0
  | cons q ps ih =>
    simp only [List.flatMap_cons, List.length_append, List.length_cons]
    omega

theorem whileFrom_commas (h : List.Forall₂ (TakesNext step) ps as) (rest : List Token) (k : Nat) :
    whileFrom (atToken .symbol ",") step (k + ps.length + 1)
      ((ps.flatMap fun q => mark "," :: q) ++ mark "]" :: rest) = .ok (as, mark "]" :: rest) := by
  induction h with
  | nil => simp [whileFrom]
  | @cons p a ps as hp _ ih =>
    have hs := hp _ (ends_flatMap_comma ps (t := mark "]") (by decide) rest)
    rw [List.flatMap_cons, List.append_assoc, whileFrom]
    simp_all [← Nat.add_assoc]

/-- items after commas in square brackets -/
theorem whileNext_commas (h : List.Forall₂ (TakesNext step) ps as) (rest : List Token) :
    whileNext (atToken .symbol ",") step
      ((ps.flatMap fun q => mark "," :: q) ++ mark "]" :: rest) = .ok (as, mark "]" :: rest) := by
  have hl := length_le_append (length_le_flatMap_comma ps) (mark "]" :: rest)
  simp only [whileNext, bind_run, get_run]
  rw [← Nat.sub_add_cancel hl]
  exact whileFrom_commas h rest _

theorem untilTextFrom_entries (h : List.Forall₂ (TakesNext step) ps as) (rest : List Token) (k : Nat) :
    untilTextFrom "\x7d" step (k + ps.length + 1) ((ps.flatMap fun q => mark "," :: q) ++ mark "\x7d" :: rest) =
      .ok (as, mark "\x7d" :: rest) := by
  induction h with
  | nil => exact untilTextFrom_close "\x7d" step k rest
  | @cons p a ps as hp _ ih =>
    have hs := hp _ (ends_flatMap_comma ps (t := mark "\x7d") (by decide) rest)
    rw [List.flatMap_cons, List.append_assoc]
    exact untilTextFrom_step ⟨_, _, rfl, by decide⟩ hs ih

theorem untilText_entries (h : List.Forall₂ (TakesNext step) ps as) (rest : List Token) :
    untilText "\x7d" step ((ps.flatMap fun q => mark "," :: q) ++ mark "\x7d" :: rest) =
      .ok (as, mark "\x7d" :: rest) := by
  have hl := length_le_append (length_le_flatMap_comma ps) (mark "\x7d" :: rest)
  simp only [untilText, bind_run, get_run]
  rw [← Nat.sub_add_cancel hl]
  exact untilTextFrom_entries h rest _

end Parse

end BraceScript
