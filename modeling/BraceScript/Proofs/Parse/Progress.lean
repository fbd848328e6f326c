import BraceScript.Fault
import BraceScript.Proofs.Parse.Readers

/-!
# Readers go forward

Every form that is read leaves a later position, and a program is read to its end or fails with a cause in its
tokens.

* `Production`      the forms that are read as a whole
* `ended_program`   what reading a program does
* `parse_ends`      every form goes forward, and every program is read to its end or fails with a cause
-/

namespace BraceScript

open Parse

namespace Parse

/-! ## whole programs -/

/-- the forms that are read as a whole -/
inductive Production
  | statement
  | expression (least : Nat)
  | primary
  | function
  | ifChain
  | forEach
  | whileLoop
  | classDecl
  | tryCatch
  | matchCases
  | embedded
  | includeFile

/-- the reader of a form -/
def Production.read (g : Grammar) : Production → Parse Node
  | statement => Parse.statement g
  | expression least => Parse.expression g least
  | primary => Parse.primary g
  | function => return .define (← Parse.functionDef g)
  | ifChain => Parse.ifChain g
  | forEach => Parse.forEach g
  | whileLoop => Parse.whileLoop g
  | classDecl => return .classDef (← Parse.classDecl g)
  | tryCatch => Parse.tryCatch g
  | matchCases => Parse.matchCases g
  | embedded => Parse.embedded
  | includeFile => Parse.includeFile g

theorem Production.takes (p : Production) (n : Nat) :
    Meets Ledger.free none 1 (n + 1) (fun _ => True) (p.read (grammar n)) := by
  have hg := grammar_meets Ledger.free n
  have any : ∀ {P : Node → Prop} {x : Parse Node}, Meets Ledger.free none 1 (n + 1) P x →
      Meets Ledger.free none 1 (n + 1) (fun _ => True) x := fun h => h.imp fun _ _ => trivial
  cases p with
  | statement => exact any (meets_statement hg)
  | expression least => exact any (meets_expression hg least)
  | primary => exact any (meets_primary hg)
  | function => exact fun ts hn => (ended_functionDef hg (fun _ _ _ _ _ _ => trivial) hn).map fun _ _ => trivial
  | ifChain => exact any (meets_ifChain hg)
  | forEach => exact any (meets_forEach hg)
  | whileLoop => exact any (meets_whileLoop hg)
  | classDecl => exact meets_one (meets_classDecl hg) fun _ _ => meets_pure trivial
  | tryCatch => exact any (meets_tryCatch hg)
  | matchCases => exact any (meets_matchCases hg)
  | embedded => exact any meets_embedded
  | includeFile => exact any (meets_includeFile hg)

theorem statementsFrom_all {g : Grammar} {fuel : Nat} {ts rest : List Token} {body : List Node}
    (h : statementsFrom g none fuel ts = .ok (body, rest)) : rest = [] := by
  induction fuel generalizing ts body with
  | zero => cases h
  | succ fuel ih =>
    cases ts with
    | nil =>
      cases h
      rfl
    | cons t ts =>
      rw [statementsFrom_more] at h
      obtain ⟨s, us, -, h⟩ := bind_inv h
      obtain ⟨more, vs, hr, h⟩ := bind_inv h
      cases h
      exact ih hr

end Parse

/-- the position after a reader that has taken tokens -/
theorem Parse.Left.position {k pos : Nat} {tokens rest : List Token} (hp : pos ≤ tokens.length)
    (h : Left k (tokens.drop pos) rest) :
    ∃ next, pos + k ≤ next ∧ next ≤ tokens.length ∧ rest = tokens.drop next := by
  obtain ⟨hs, hl⟩ := h
  rw [List.length_drop] at hl
  refine ⟨tokens.length - rest.length, by omega, by omega, ?_⟩
  exact (List.suffix_iff_eq_drop.mp (hs.trans (List.drop_suffix pos tokens)))

theorem parse_eq (ts : List Token) : parse ts = (program (grammar (ts.length + 1)) ts).map Prod.fst := by
  rw [parse]
  cases program (grammar (ts.length + 1)) ts with
  | ok p => rfl
  | error e => rfl

theorem program_of_parse {ts : List Token} {body : List Node} (h : parse ts = .ok body) :
    program (grammar (ts.length + 1)) ts = .ok (body, []) := by
  rw [parse_eq] at h
  cases hr : program (grammar (ts.length + 1)) ts with
  | ok p =>
    obtain ⟨as, rest⟩ := p
    rw [hr] at h
    cases h
    rw [statementsFrom_all hr]
  | error e =>
    rw [hr] at h
    cases h

theorem program_of_parse_error {ts : List Token} {e : ParseError} (h : parse ts = .error e) :
    program (grammar (ts.length + 1)) ts = .error e := by
  rw [parse_eq] at h
  cases hr : program (grammar (ts.length + 1)) ts with
  | ok p =>
    rw [hr] at h
    cases h
  | error e' =>
    rw [hr] at h
    cases h
    rfl

/-- a program as a whole meets the specification of its statements -/
theorem ended_program {σ : Type} (A : Ledger σ) (ts : List Token) (ha : ∀ t ∈ ts, A.admits t) :
    Ended A none (fun _ => 0) (∀ t ∈ blockSteps ·, t.Regular) ts (program (grammar (ts.length + 1)) ts) :=
  meets_statementsFrom (grammar_meets A _) none (Nat.le_succ _) ts ⟨Nat.lt_succ_self _, ha⟩

/-- a program that is not read has a cause for it in the tokens -/
theorem founded_of_parse {ts : List Token} {e : ParseError} (h : parse ts = .error e) : e.Founded ts := by
  have he := ended_program Ledger.free ts fun _ _ => trivial
  rw [program_of_parse_error h] at he
  cases he with
  | error hf => exact hf

/-- **Reading goes forward and ends.** At every position, every form that is read leaves a later position,
or fails with a cause in the tokens there; a depth of nesting above the number of those tokens is never
used up. So every token list is a program that is read to its end, or it fails: by its syntax, or by the
text of one of its number tokens. -/
theorem parse_ends (tokens : List Token) :
    (∀ (p : Production) (pos depth : Nat), pos ≤ tokens.length → tokens.length - pos ≤ depth →
      (∀ node rest, p.read (grammar depth) (tokens.drop pos) = .ok (node, rest) →
        ∃ next, pos < next ∧ next ≤ tokens.length ∧ rest = tokens.drop next) ∧
      ∀ e, p.read (grammar depth) (tokens.drop pos) = .error e → e.Founded (tokens.drop pos)) ∧
    ((∃ body, parse tokens = .ok body ∧
        program (grammar (tokens.length + 1)) tokens = .ok (body, [])) ∨
      ∃ e, parse tokens = .error e ∧ e.Founded tokens ∧
        (Fault.parseFamily e = .malformed ∨
          (∃ text, e = .badInteger text) ∨ (∃ digits, e = .longInteger digits) ∨
            ∃ text, e = .badNumber text)) := by
  constructor
  · intro p pos depth hp hd
    have h := p.takes depth (tokens.drop pos) (.free (by rw [List.length_drop]; omega))
    constructor
    · intro node rest hr
      rw [hr] at h
      cases h with
      | ok hl => exact hl.position hp
    · intro e hr
      rw [hr] at h
      cases h with
      | error he => exact he
  · cases h : parse tokens with
    | ok body => exact Or.inl ⟨body, rfl, program_of_parse h⟩
    | error e =>
      refine Or.inr ⟨e, rfl, founded_of_parse h, ?_⟩
      cases e with
      | badInteger text => exact Or.inr (Or.inl ⟨text, rfl⟩)
      | longInteger digits => exact Or.inr (Or.inr (Or.inl ⟨digits, rfl⟩))
      | badNumber text => exact Or.inr (Or.inr (Or.inr ⟨text, rfl⟩))
      | _ => exact Or.inl rfl

/-- the value of a return is read from the second token on -/
theorem parse_ends_return :
    (Production.expression 0).read (grammar 1) ([⟨.keyword, "return"⟩, ⟨.ident, "x"⟩].drop 1) = .ok (.var "x", []) ∧
    ∃ next, 1 < next ∧ next ≤ 2 ∧ [] = ([⟨.keyword, "return"⟩, ⟨.ident, "x"⟩] : List Token).drop next := by
  have h : (Production.expression 0).read (grammar 1) ([⟨.keyword, "return"⟩, ⟨.ident, "x"⟩].drop 1) =
      .ok (.var "x", []) := rfl
  exact ⟨h, ((parse_ends _).1 _ 1 1 (by decide) (by decide)).1 _ _ h⟩

end BraceScript
