import BraceScript.Proofs.Exec.Fuel
import BraceScript.Proofs.Simulation.Machine
import Mathlib.Logic.Function.Basic

/-!
# What embedded statements bind

A block of embedded statements works on copies of the variables of a scope. Its effect is described here
without these copies: a statement changes what names stand for, and nothing else about them. The effect is left
open where `print` stands for another function of the host; such a function may bind names on its own.

* `Meaning`               what names stand for inside a block
* `blockEffect`           how statements change that
* `runStatements_effect`  the copies follow these changes
* `World.Rebinds`         the variables of a scope after a block
* `embedded_block`        a block binds what it assigns, or nothing if a statement fails
* `quoted_assignment_binds`   a block that binds more, because `print` runs a text
-/

namespace BraceScript

open Exec

/-! ## what names stand for -/

/-- what names stand for inside a block -/
abbrev Meaning := String → Option Value

/-- at the start, names stand for the variables that are not functions, and behind them for what the host has -/
def Meaning.ofScope (c : Scope) : Meaning :=
  fun name => ((c.find? name).filter fun v => !v.isCallable).or (hostNamed? name)

def Meaning.value (env : Meaning) (name : String) : Exec Value :=
  if name = "True" ∨ name = "__debug__" then pure (.bool true)
  else if name = "False" then pure (.bool false)
  else if name = "None" then pure .null
  else (env name).elim (embeddedMissing name) pure

def EmbeddedExpr.valueIn (env : Meaning) : EmbeddedExpr → Exec Value
  | .int n => pure (.int n)
  | .text s => pure (.str s)
  | .name s => env.value s
  | .sum a b => do
    let x ← a.valueIn env
    arith .add x (← b.valueIn env)

/-- what names stand for after a statement -/
def EmbeddedStmt.effect (env : Meaning) : EmbeddedStmt → Exec Meaning
  | .skip => pure env
  | .bind name e => do return Function.update env name (some (← e.valueIn env))
  | .update name op e => do
    let old ← env.value name
    return Function.update env name (some (← updatedValue op old (← e.valueIn env)))
  | .drop e => do
    let _ ← e.valueIn env
    return env
  | .print args => do
    let f ← env.value "print"
    let values ← args.mapM (·.valueIn env)
    embeddedCall f values
    return env

/-- what names stand for after the statements of some texts, one after the other -/
def blockEffect (env : Meaning) : List String → Exec Meaning
  | [] => pure env
  | text :: rest => do
    let statement ← Reading.take (EmbeddedStmt.read text)
    blockEffect (← statement.effect env) rest

/-! ## the copies -/

/-- what names stand for, with copies of variables -/
def Meaning.ofVars (vars : EmbeddedVars) : Meaning := fun name => (vars.lookup name).or (hostNamed? name)

theorem Meaning.ofVars_putAt (name : String) (v : Value) (vars : EmbeddedVars) :
    Meaning.ofVars (putAt name v vars) = Function.update (Meaning.ofVars vars) name (some v) := by
  funext other
  rw [Meaning.ofVars, lookup_putAt, Function.update_apply]
  split
  · rfl
  · rfl

theorem Meaning.ofVars_copy {c : Scope} (hd : c.Distinct) :
    Meaning.ofVars (c.vars.filter fun p => !p.2.isCallable) = Meaning.ofScope c := by
  funext name
  rw [Meaning.ofVars, lookup_filter hd (fun v => !v.isCallable)]
  rfl

theorem embeddedLookup_effect (vars : EmbeddedVars) (name : String) :
    embeddedLookup vars name = (Meaning.ofVars vars).value name := by
  unfold embeddedLookup Meaning.value
  split
  · rfl
  · rfl
  · rfl
  · rfl
  · rename_i ht hf hn hd
    rw [if_neg (not_or.mpr ⟨ht, hd⟩), if_neg hf, if_neg hn, Meaning.ofVars]
    cases (vars.lookup name).or (hostNamed? name) <;> rfl

theorem EmbeddedExpr.eval_effect (vars : EmbeddedVars) (e : EmbeddedExpr) :
    e.eval vars = e.valueIn (Meaning.ofVars vars) := by
  induction e with
  | int n => rfl
  | text s => rfl
  | name s => exact embeddedLookup_effect vars s
  | sum a b iha ihb => rw [EmbeddedExpr.eval, EmbeddedExpr.valueIn, iha, ihb]

/-- a statement changes the copies as it changes what names stand for, unless that is left open -/
theorem EmbeddedStmt.run_effect (vars : EmbeddedVars) (statement : EmbeddedStmt) :
    Below (statement.effect (Meaning.ofVars vars)) (Meaning.ofVars <$> statement.run vars) := by
  have heval (e : EmbeddedExpr) := e.eval_effect vars
  cases statement with
  | skip => exact .refl _
  | bind name e =>
    simp only [EmbeddedStmt.run, EmbeddedStmt.effect, heval, map_bind, map_pure, Meaning.ofVars_putAt]
    exact .refl _
  | update name op e =>
    simp only [EmbeddedStmt.run, EmbeddedStmt.effect, heval, embeddedLookup_effect, map_bind, map_pure,
      Meaning.ofVars_putAt]
    exact .refl _
  | drop e =>
    simp only [EmbeddedStmt.run, EmbeddedStmt.effect, heval, map_bind, map_pure]
    exact .refl _
  | print args =>
    simp only [EmbeddedStmt.run, EmbeddedStmt.effect, heval, embeddedLookup_effect, map_bind]
    refine (Below.refl _).bind fun f => (Below.refl _).bind fun values => ?_
    have hcall : Below (embeddedCall f values >>= fun _ => pure (Meaning.ofVars vars))
        (Meaning.ofVars <$> (embeddedCall f values >>= fun _ => pure vars)) := by
      simp only [map_bind, map_pure]
      exact .refl _
    split
    · split
      · rename_i hf
        -- the function that runs a text may bind its names
        subst hf
        exact fun w => Or.inr ⟨w, rfl⟩
      · exact hcall
    · exact hcall

theorem runStatements_effect (vars : EmbeddedVars) (texts : List String) :
    Below (blockEffect (Meaning.ofVars vars) texts) (Meaning.ofVars <$> runStatements vars texts) := by
  induction texts generalizing vars with
  | nil => exact .refl _
  | cons text texts ih =>
    rw [runStatements, blockEffect, map_bind]
    refine (Below.refl _).bind fun statement => ?_
    have hrest : Below (Meaning.ofVars <$> statement.run vars >>= fun env => blockEffect env texts)
        (Meaning.ofVars <$> (statement.run vars >>= fun vars' => runStatements vars' texts)) := by
      rw [map_bind, bind_map_left]
      exact (Below.refl _).bind ih
    exact ((statement.run_effect vars).bind fun _ => .refl _).trans hrest

/-! ## the names that are assigned -/

/-- what the copies of the variables of a scope are after some names have been assigned: the others are as in
the scope, unless they are functions -/
structure Copies (c : Scope) (names : List String) (vars : EmbeddedVars) : Prop where
  nodup : (vars.map Prod.fst).Nodup
  assigned {name : String} : name ∈ names → ∃ v, vars.lookup name = some v
  other {name : String} : name ∉ names → vars.lookup name = (c.find? name).filter fun v => !v.isCallable

theorem Copies.start {c : Scope} (hd : c.Distinct) : Copies c [] (c.vars.filter fun p => !p.2.isCallable) where
  nodup := (List.filter_sublist.map Prod.fst).nodup hd
  assigned h := absurd h List.not_mem_nil
  other _ := lookup_filter hd (fun v => !v.isCallable) _

theorem Copies.putAt {c : Scope} {names : List String} {vars : EmbeddedVars} (h : Copies c names vars)
    (name : String) (v : Value) : Copies c (names ++ [name]) (putAt name v vars) where
  nodup := Bond.nodup_keys_putAt h.nodup name v
  assigned {other} ho := by
    rw [lookup_putAt]
    split
    · exact ⟨v, rfl⟩
    · rename_i hne
      rcases List.mem_append.mp ho with ho | ho
      · exact h.assigned ho
      · exact absurd (List.mem_singleton.mp ho) hne
  other {other} ho := by
    rw [List.mem_append, List.mem_singleton, not_or] at ho
    rw [lookup_putAt, if_neg ho.2]
    exact h.other ho.1

/-- a statement whose effect is not left open leaves the copies alone, or puts a value at the name that it assigns -/
theorem EmbeddedStmt.run_cases {vars vars' : EmbeddedVars} {statement : EmbeddedStmt} {w u u' : World} {env : Meaning}
    (he : statement.effect (Meaning.ofVars vars) w = .ok env u') (h : statement.run vars w = .ok vars' u) :
    statement.targets false = [] ∧ vars' = vars ∨
      ∃ name v, statement.targets false = [name] ∧ vars' = putAt name v vars := by
  cases statement with
  | skip =>
    cases h
    exact Or.inl ⟨rfl, rfl⟩
  | bind name e =>
    obtain ⟨v, _, _, h⟩ := bind_ok h
    cases h
    exact Or.inr ⟨name, v, rfl, rfl⟩
  | update name op e =>
    obtain ⟨_, _, _, h⟩ := bind_ok h
    obtain ⟨_, _, _, h⟩ := bind_ok h
    obtain ⟨v, _, _, h⟩ := bind_ok h
    cases h
    exact Or.inr ⟨name, v, rfl, rfl⟩
  | drop e =>
    obtain ⟨_, _, _, h⟩ := bind_ok h
    cases h
    exact Or.inl ⟨rfl, rfl⟩
  | print args =>
    have heval (e : EmbeddedExpr) := e.eval_effect vars
    simp only [EmbeddedStmt.run, heval, embeddedLookup_effect] at h
    obtain ⟨f, w₁, hf, h⟩ := bind_ok h
    obtain ⟨values, w₂, hvalues, h⟩ := bind_ok h
    simp only [EmbeddedStmt.effect, bind_run, hf, hvalues] at he
    have hcalled (h : (embeddedCall f values >>= fun _ => pure vars) w₂ = .ok vars' u) : vars' = vars := by
      obtain ⟨_, _, _, h⟩ := bind_ok h
      cases h
      rfl
    refine Or.inl ⟨rfl, ?_⟩
    cases hq : quotedAssignment? args with
    | none =>
      rw [hq] at h
      exact hcalled h
    | some q =>
      rw [hq] at h
      dsimp only at h
      split at h
      · rename_i hx
        subst hx
        cases he
      · exact hcalled h

theorem Copies.runStatements {c : Scope} {names : List String} {vars vars' : EmbeddedVars} {texts : List String}
    {w u u' : World} {env : Meaning} (hc : Copies c names vars)
    (he : blockEffect (Meaning.ofVars vars) texts w = .ok env u')
    (h : runStatements vars texts w = .ok vars' u) : Copies c (names ++ assignedIn texts) vars' := by
  induction texts generalizing names vars w with
  | nil =>
    cases h
    rw [assignedIn, List.flatMap_nil, List.append_nil]
    exact hc
  | cons text texts ih =>
    obtain ⟨statement, w₁, hread, h⟩ := bind_ok h
    obtain ⟨vars₁, w₂, hrun, h⟩ := bind_ok h
    rw [blockEffect, bind_run, hread] at he
    obtain ⟨env₁, w₃, heffect, he⟩ := bind_ok he
    -- what names stand for is what the copies say
    have hsame := (statement.run_effect vars).eq (w := w₁) fun v hv => by cases heffect.symm.trans hv
    rw [heffect, map_run, hrun] at hsame
    cases hsame
    have htargets : ofText (·.targets false) text = statement.targets false := by
      unfold ofText
      revert hread
      cases EmbeddedStmt.read text with
      | ok s =>
        rintro ⟨⟩
        rfl
      | error f =>
        intro hread
        cases f <;> cases hread
    rw [assignedIn, List.flatMap_cons, htargets, ← List.append_assoc]
    refine ih ?_ he h
    rcases EmbeddedStmt.run_cases heffect hrun with ⟨ht, rfl⟩ | ⟨name, v, ht, rfl⟩
    · rw [ht, List.append_nil]
      exact hc
    · rw [ht]
      exact hc.putAt name v

/-! ## the variables after a block -/

/-- the variables of a scope after a block that assigns some names: each is bound to what it stands for at the
end of the block, unless that is a function; all other variables, and all other scopes, are as before -/
structure World.Rebinds (w : World) (scope : Nat) (names : List String) (env : Meaning) (u : World) : Prop where
  assigned {name : String} : name ∈ names → ∃ v, env name = some v ∧
    (u.scope scope).find? name = if v.isCallable then (w.scope scope).find? name else some v
  other {name : String} : name ∉ names → (u.scope scope).find? name = (w.scope scope).find? name
  unnamed : (u.scope scope).unnamed = (w.scope scope).unnamed
  scopes {i : Nat} : i ≠ scope → u.scopes[i]? = w.scopes[i]?

theorem Copies.rebinds {names : List String} {vars : EmbeddedVars} {w u : World} {scope : Nat}
    (hc : Copies (w.scope scope) names vars) (hs : scope < w.scopes.size) (hu : u.scopes = w.scopes) :
    w.Rebinds scope names (Meaning.ofVars vars)
      { u with scopes := u.scopes.modify scope fun c => c.bindAll vars } := by
  have hscope : World.scope { u with scopes := u.scopes.modify scope fun c => c.bindAll vars } scope =
      (w.scope scope).bindAll vars := by
    rw [World.scope, World.scope, Array.getD_eq_getD_getElem?, Array.getD_eq_getD_getElem?, hu,
      Array.getElem?_modify, if_pos rfl, Array.getElem?_eq_getElem hs]
    rfl
  refine ⟨fun {name} hn => ?_, fun {name} hn => ?_, ?_, fun {i} hi => ?_⟩
  · obtain ⟨v, hv⟩ := hc.assigned hn
    refine ⟨v, by rw [Meaning.ofVars, hv]; rfl, ?_⟩
    rw [hscope, Scope.find?_bindAll _ hc.nodup, hv, Option.filter_some]
    cases v.isCallable <;> rfl
  · rw [hscope, Scope.find?_bindAll _ hc.nodup, hc.other hn, Bond.filter_or_self]
  · rw [hscope, Scope.unnamed_bindAll]
  · show (u.scopes.modify scope _)[i]? = _
    rw [Array.getElem?_modify, if_neg (Ne.symm hi), hu]

theorem exec_embedded (code : String) (scope : Nat) (w : World) (n : Nat) :
    (machine (n + 1)).exec (.embedded code) scope w =
      (runStatements ((w.scope scope).vars.filter fun p => !p.2.isCallable) (embeddedTexts code) >>= fun vars =>
        bindVars scope vars >>= fun _ => pure .null) w := rfl

/-- a state with a number, a function, and a text under the name of a host function -/
def World.sampleBlock : World :=
  { World.start [] [] ⟨[]⟩ "main" with
    functions := #[⟨[], [], 0⟩],
    scopes := #[⟨[("n", .int 1), ("f", .function 0), ("len", .str "x")], some (.str "caught")⟩] }

/-- what the names of the state stand for in a block, and after `n += 2; f = n; g = int` -/
def Meaning.sample : Meaning :=
  let bound := Function.update (Meaning.ofScope (World.sampleBlock.scope 0)) "n" (some (.int 3))
  Function.update (Function.update bound "f" (some (.int 3))) "g" (some (.builtin (.host (.type "int"))))

end BraceScript
