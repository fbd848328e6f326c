import BraceScript.Proofs.Exec.Outcomes

/-!
# Cases as branches

A match on a variable whose cases name literals is the chain of branches that compare the variable
with these literals.

* `Choice`               a case with its literals, or a case for all else
* `exec_test`            what the comparisons of a case find out
* `evalCases_branches`   the cases select the body that the branches select
* `match_ifChain`        the match and the chain end alike
-/

namespace BraceScript

open Exec

/-! ## literals -/

/-- a literal that a case can name -/
inductive PatternLiteral where
  | int (n : Int)
  | float (x : Double)
  | text (s : String)

def PatternLiteral.node : PatternLiteral → Node
  | .int n => .num (.int n)
  | .float x => .num (.real x)
  | .text s => .str s

def PatternLiteral.value : PatternLiteral → Value
  | .int n => .int n
  | .float x => .float x
  | .text s => .str s

theorem exec_literal (n scope : Nat) (p : PatternLiteral) (w : World) :
    (machine (n + 1)).exec p.node scope w = .ok p.value w := by
  cases p <;> rfl

/-! ## cases and branches -/

/-- the literals of a case, of which there is one at least -/
structure Patterns where
  first : PatternLiteral
  more : List PatternLiteral

/-- a case with its literals, or a case for all else, and its body -/
abbrev Choice := Option Patterns × List Node

def Patterns.all (ps : Patterns) : List PatternLiteral := ps.first :: ps.more

/-- the comparisons of a variable with literals, the later ones inside the `or` of the first -/
def testFrom (v : String) (p : PatternLiteral) : List PatternLiteral → Node
  | [] => .compare .eq (.var v) p.node
  | q :: qs => .or (.compare .eq (.var v) p.node) (testFrom v q qs)

def Patterns.test (v : String) (ps : Patterns) : Node := testFrom v ps.first ps.more

def Choice.asCase (c : Choice) : List Node × List Node := ((c.1.elim [] Patterns.all).map (·.node), c.2)

def Choice.asBranch (v : String) (c : Choice) : Option Node × List Node := (c.1.map (·.test v), c.2)

/-- the match of a variable against cases, the first of which names literals -/
def matchOn (v : String) (first : Patterns × List Node) (rest : List Choice) : Node :=
  .matchCase (.var v) ((Choice.asCase (some first.1, first.2)) :: rest.map Choice.asCase)

def chainOn (v : String) (first : Patterns × List Node) (rest : List Choice) : Node :=
  .ifChain ((Choice.asBranch v (some first.1, first.2)) :: rest.map (Choice.asBranch v))

/-! ## the comparisons -/

section
variable {n scope : Nat} {v : String} {u : Value} {w : World}

theorem exec_compare (hv : Exec.lookup scope v w = .ok u w) (p : PatternLiteral) :
    (machine (n + 2)).exec (.compare .eq (.var v) p.node) scope w = .ok (.bool (w.equal u p.value)) w := by
  have hvar : (machine (n + 1)).exec (.var v) scope w = .ok u w := hv
  have hops : operands (machine (n + 1)) scope (.var v) p.node w = .ok (u, p.value) w := by
    rw [operands, bind_run, hvar]
    dsimp only
    rw [bind_run, exec_literal]
    rfl
  show (operands (machine (n + 1)) scope (.var v) p.node >>= fun x => compareValues .eq x.1 x.2) w = _
  rw [bind_run, hops]
  rfl

theorem exec_or (left right : Node) :
    (machine (n + 1)).exec (.or left right) scope = (machine n).exec left scope >>= fun a => Exec.truth a >>= fun b =>
      if b then pure (.bool true) else (machine n).exec right scope := rfl

theorem truth_bool_run (b : Bool) : Exec.truth (.bool b) w = .ok b w := by
  cases b <;> rfl

/-- the comparisons of a case find out whether the variable equals one of its literals, and change nothing -/
theorem exec_test (hv : Exec.lookup scope v w = .ok u w) (p : PatternLiteral) (more : List PatternLiteral)
    (hn : more.length + 2 ≤ n) :
    (machine n).exec (testFrom v p more) scope w = .ok (.bool ((p :: more).any fun q => w.equal u q.value)) w := by
  induction more generalizing p n with
  | nil =>
    obtain ⟨k, rfl⟩ := Nat.exists_eq_add_of_le' hn
    rw [List.any_cons, List.any_nil, Bool.or_false]
    exact exec_compare hv p
  | cons q qs ih =>
    obtain ⟨k, rfl⟩ : ∃ k, n = k + qs.length + 2 + 1 := ⟨n - (qs.length + 3), by rw [List.length_cons] at hn; omega⟩
    have hq := ih (n := k + qs.length + 2) q (by omega)
    have hany : ((p :: q :: qs).any fun r => w.equal u r.value) =
        (w.equal u p.value || (q :: qs).any fun r => w.equal u r.value) := List.any_cons
    rw [hany, testFrom, exec_or, bind_run, exec_compare hv p]
    dsimp only
    rw [bind_run, truth_bool_run]
    dsimp only
    rw [ite_run, hq]
    cases w.equal u p.value <;> rfl

theorem exec_test_error {signal : Signal} {w' : World} (hv : Exec.lookup scope v w = .error signal w')
    (p : PatternLiteral) (more : List PatternLiteral) (hn : more.length + 2 ≤ n) :
    (machine n).exec (testFrom v p more) scope w = .error signal w' := by
  have hcompare : ∀ k, (machine (k + 2)).exec (.compare .eq (.var v) p.node) scope w = .error signal w' := by
    intro k
    have hvar : (machine (k + 1)).exec (.var v) scope w = .error signal w' := hv
    have hops : operands (machine (k + 1)) scope (.var v) p.node w = .error signal w' := by
      rw [operands, bind_run, hvar]
    show (operands (machine (k + 1)) scope (.var v) p.node >>= fun x => compareValues .eq x.1 x.2) w = _
    rw [bind_run, hops]
  cases more with
  | nil =>
    obtain ⟨k, rfl⟩ := Nat.exists_eq_add_of_le' hn
    exact hcompare k
  | cons q qs =>
    obtain ⟨k, rfl⟩ : ∃ k, n = k + 2 + 1 := ⟨n - 3, by rw [List.length_cons] at hn; omega⟩
    rw [testFrom, exec_or, bind_run, hcompare k]

theorem matchesAny_run (u : Value) (ps : List PatternLiteral) :
    matchesAny (machine (n + 1)) scope u (ps.map (·.node)) w = .ok (ps.any fun q => w.equal u q.value) w := by
  induction ps with
  | nil => rfl
  | cons p ps ih =>
    rw [List.map_cons, matchesAny, bind_run, exec_literal]
    dsimp only
    rw [bind_run, get_run]
    dsimp only
    rw [ite_run, ih, List.any_cons]
    cases w.equal u p.value <;> rfl

/-! ## the choice -/

/-- the fuel that the comparisons of the cases take -/
def Choice.Fits (n : Nat) (c : Choice) : Prop := ∀ ps, c.1 = some ps → ps.more.length + 2 ≤ n

/-- the cases select the body that the branches select, as neither looks at the state between two comparisons -/
theorem evalCases_branches (hv : Exec.lookup scope v w = .ok u w) (cs : List Choice) (hn : ∀ c ∈ cs, c.Fits n) :
    evalCases (machine n) scope u (cs.map Choice.asCase) w =
      evalBranches (machine n) scope (cs.map (Choice.asBranch v)) w := by
  induction cs with
  | nil => rfl
  | cons c cs ih =>
    obtain ⟨patterns, body⟩ := c
    have hrest := ih fun c hc => hn c (List.mem_cons_of_mem _ hc)
    cases patterns with
    | none => rfl
    | some ps =>
      have hfit := hn _ List.mem_cons_self ps rfl
      obtain ⟨k, rfl⟩ : ∃ k, n = k + 1 := ⟨n - 1, by omega⟩
      have hany : matchesAny (machine (k + 1)) scope u (Choice.asCase (some ps, body)).1 w =
          .ok (ps.all.any fun q => w.equal u q.value) w := matchesAny_run u ps.all
      have htest : (machine (k + 1)).exec (ps.test v) scope w =
          .ok (.bool (ps.all.any fun q => w.equal u q.value)) w := exec_test hv ps.first ps.more hfit
      have hcase : evalCases (machine (k + 1)) scope u (((some ps, body) :: cs).map Choice.asCase) w =
          if ps.all.any (fun q => w.equal u q.value) then runBlock (machine (k + 1)) scope .null body w
          else evalCases (machine (k + 1)) scope u (cs.map Choice.asCase) w := by
        show (matchesAny (machine (k + 1)) scope u (Choice.asCase (some ps, body)).1 >>= fun b =>
          if b = true then runBlock (machine (k + 1)) scope .null body
          else evalCases (machine (k + 1)) scope u (cs.map Choice.asCase)) w = _
        rw [bind_run, hany]
        exact ite_run _ _ _ _
      rw [hcase, hrest]
      show _ = ((machine (k + 1)).exec (ps.test v) scope >>= fun c => Exec.truth c >>= fun b =>
        if b = true then runBlock (machine (k + 1)) scope .null body
        else evalBranches (machine (k + 1)) scope (cs.map (Choice.asBranch v))) w
      rw [bind_run, htest]
      dsimp only
      rw [bind_run, truth_bool_run]
      exact (ite_run _ _ _ _).symm

end

/-- the match and the chain agree on every machine that has fuel for the comparisons -/
theorem exec_matchOn (v : String) (first : Patterns × List Node) (rest : List Choice) {n : Nat}
    (hn : ∀ c ∈ (some first.1, first.2) :: rest, Choice.Fits n c) (scope : Nat) (w : World) :
    (machine (n + 1)).exec (matchOn v first rest) scope w = (machine (n + 1)).exec (chainOn v first rest) scope w := by
  have hfit := hn _ List.mem_cons_self first.1 rfl
  obtain ⟨k, rfl⟩ : ∃ k, n = k + 1 := ⟨n - 1, by omega⟩
  show (Exec.lookup scope v >>= fun u => evalCases (machine (k + 1)) scope u _) w =
    evalBranches (machine (k + 1)) scope _ w
  rw [bind_run]
  -- the variable is looked up once by the match and by every comparison of the chain
  cases hv : Exec.lookup scope v w with
  | ok u w' =>
    have hw : w' = w := by
      unfold Exec.lookup at hv
      rw [bind_run, get_run] at hv
      dsimp only at hv
      cases hf : (w.scope scope).find? v with
      | some x =>
        rw [hf] at hv
        cases hv
        rfl
      | none =>
        rw [hf] at hv
        cases hv
    subst hw
    exact evalCases_branches hv ((some first.1, first.2) :: rest) hn
  | error signal w' =>
    show _ = ((machine (k + 1)).exec (first.1.test v) scope >>= _) w
    rw [bind_run, Patterns.test, exec_test_error hv _ _ hfit]

def countLiterals : List Choice → Nat
  | [] => 0
  | c :: cs => (c.1.elim 0 fun ps => ps.more.length + 1) + countLiterals cs

theorem fits_of_countLiterals {n : Nat} {cs : List Choice} (h : countLiterals cs + 1 ≤ n) : ∀ c ∈ cs, c.Fits n := by
  induction cs with
  | nil =>
    intro c hc
    cases hc
  | cons d ds ih =>
    intro c hc ps hps
    rw [countLiterals] at h
    rcases List.mem_cons.mp hc with rfl | hd
    · rw [hps] at h
      simp only [Option.elim] at h
      omega
    · exact ih (by omega) c hd ps hps

/-- A match on a variable, whose cases name literals and the first of which is not the case for all else,
ends as the chain of the branches that compare the variable with these literals does: with the same value
or signal and in the same state. -/
theorem match_ifChain (v : String) (first : Patterns × List Node) (rest : List Choice) (scope : Nat) (w : World)
    (r : Ending) : Executes (matchOn v first rest) scope w r ↔ Executes (chainOn v first rest) scope w r := by
  have hagree : ∀ n, countLiterals ((some first.1, first.2) :: rest) + 2 ≤ n →
      (machine n).exec (matchOn v first rest) scope w = (machine n).exec (chainOn v first rest) scope w := by
    intro n hn
    obtain ⟨k, rfl⟩ : ∃ k, n = k + 1 := ⟨n - 1, by omega⟩
    exact exec_matchOn v first rest (fits_of_countLiterals (by omega)) scope w
  constructor
  · exact executes_of_agree hagree
  · exact executes_of_agree fun n hn => (hagree n hn).symm

end BraceScript
