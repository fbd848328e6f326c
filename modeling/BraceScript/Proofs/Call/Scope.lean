import BraceScript.Proofs.Control.EarlyReturn
import BraceScript.Proofs.Exec.Bindings

/-!
# The scope that a call starts in

A call binds its arguments over the variables of the scope that the function keeps, as they are at that moment,
and runs the body of the function in the scope that it made.

* `bindFixed_eq`            one argument for each name, in order
* `fixedNames_append`, `restName_append`, `keywordsName_append`   plain parameters before others
* `callScope_append`        the scope of a call with enough arguments
* `callScope_bindings`      the scope of a call, for every function
* `callFunction_bindings`   a call is refused, or the body starts in that scope
-/

namespace BraceScript

open Exec

theorem bindFixed_eq (s : Scope) (names : List String) (args : List Value) :
    bindFixed s names args =
      if names.length ≤ args.length then .ok (s.putAll (names.zip args)) else .error (.indexRange "list") := by
  induction names generalizing s args with
  | nil => rfl
  | cons name names ih =>
    cases args with
    | nil => rfl
    | cons v args =>
      rw [bindFixed, ih]
      simp only [List.length_cons, Nat.add_le_add_iff_right]
      rfl

theorem Scope.putAll_append (s : Scope) (ms more : List (String × Value)) :
    s.putAll (ms ++ more) = (s.putAll ms).putAll more := List.foldl_append

section
variable (ps : List (String × Option Node)) (tail : List (Param Node))

theorem fixedNames_append :
    fixedNames (ps.map (fun p => .plain p.1 p.2) ++ tail) = ps.map Prod.fst ++ fixedNames tail := by
  induction ps with
  | nil => rfl
  | cons p ps ih =>
    rw [List.map_cons, List.cons_append, fixedNames, ih]
    rfl

theorem restName_append (found : Option String) :
    restName found (ps.map (fun p => .plain p.1 p.2) ++ tail) = restName found tail := by
  induction ps with
  | nil => rfl
  | cons p ps ih => exact ih

theorem keywordsName_append (found : Option String) :
    keywordsName found (ps.map (fun p => .plain p.1 p.2) ++ tail) = keywordsName found tail := by
  induction ps with
  | nil => rfl
  | cons p ps ih => exact ih

end

/-- the names of the parameters that collect arguments: the last one of each kind -/
def collectors (params : List (Param Node)) : List String :=
  (restName none params).toList ++ (keywordsName none params).toList

/-- what arguments bind the parameters of a function to: one argument for each parameter that takes one, in
order, and some value for each parameter that collects arguments -/
structure Bound (params : List (Param Node)) (args : List Value) (bound : List (String × Value)) : Prop where
  enough : (fixedNames params).length ≤ args.length
  split : ∃ collected, bound = (fixedNames params).zip args ++ collected ∧
    collected.map Prod.fst = collectors params

def bindCollectors (s : Scope) (rest keywords : Option String) (left : List Value) : Exec Scope :=
  match rest, keywords, left with
  | none, none, [] => pure s
  | none, none, _ => fail .tooManyArguments
  | none, some kw, [] => do return s.insert kw (← newDict .empty)
  | none, some kw, [.dict cell] => pure (s.insert kw (.dict cell))
  | none, some kw, _ => fail (.keywordDict kw)
  | some name, none, left => do return s.insert name (← newList left.toArray)
  | some name, some kw, left => do
    let s := s.insert name (← newList left.toArray)
    return s.insert kw (← newDict .empty)

/-- the steps of a call up to its body: the check of the arguments, one argument for each name, and the rest -/
theorem callScope_eq (c : Closure) (args : List Value) (w : World) :
    callScope c args w =
      if !(fixedNames c.params).isEmpty && !args.all w.showable then .error (.fault .tooManyDigits) w
      else if (fixedNames c.params).length ≤ args.length then
        bindCollectors ((w.scope c.scope).putAll ((fixedNames c.params).zip args)) (restName none c.params)
          (keywordsName none c.params) (args.drop (fixedNames c.params).length) w
      else .error (.fault (.indexRange "list")) w := by
  unfold callScope
  rw [bind_run]
  dsimp only [get_run]
  split
  · rfl
  rw [bindFixed_eq]
  split
  · generalize (w.scope c.scope).putAll _ = s
    generalize args.drop _ = left
    cases restName none c.params with
    | none =>
      cases keywordsName none c.params with
      | none => cases left <;> rfl
      | some kw =>
        cases left with
        | nil => rfl
        | cons v left => cases left <;> cases v <;> rfl
    | some name => cases keywordsName none c.params <;> rfl
  · rfl

/-- with an argument for each name, what is left goes to the parameters that collect arguments -/
theorem callScope_append {c : Closure} {given : List Value} (hl : given.length = (fixedNames c.params).length)
    (left : List Value) (w : World) :
    callScope c (given ++ left) w =
      if (fixedNames c.params).isEmpty || (given ++ left).all w.showable then
        bindCollectors ((w.scope c.scope).putAll ((fixedNames c.params).zip given)) (restName none c.params)
          (keywordsName none c.params) left w
      else .error (.fault .tooManyDigits) w := by
  have hz : (fixedNames c.params).zip (given ++ left) = (fixedNames c.params).zip given := by
    have hsplit : (fixedNames c.params ++ []).zip (given ++ left) =
        (fixedNames c.params).zip given ++ [].zip left := List.zip_append hl.symm
    rwa [List.append_nil, List.zip_nil_left, List.append_nil] at hsplit
  have hle : (fixedNames c.params).length ≤ (given ++ left).length := by
    rw [List.length_append, hl]
    exact Nat.le_add_right _ _
  rw [callScope_eq, ← Bool.not_or, if_pos hle, hz, ← hl, List.drop_left]
  cases (fixedNames c.params).isEmpty || (given ++ left).all w.showable <;> rfl

theorem bindCollectors_bindings (s : Scope) (rest keywords : Option String) (left : List Value) (w : World) :
    (∃ f w', bindCollectors s rest keywords left w = .error (.fault f) w') ∨
      ∃ bound w', bound.map Prod.fst = rest.toList ++ keywords.toList ∧
        bindCollectors s rest keywords left w = .ok (s.putAll bound) w' := by
  cases rest with
  | none =>
    cases keywords with
    | none =>
      cases left with
      | nil => exact Or.inr ⟨[], w, rfl, rfl⟩
      | cons v left => exact Or.inl ⟨_, w, rfl⟩
    | some kw =>
      cases left with
      | nil => exact Or.inr ⟨[(kw, .dict w.dicts.size)], _, rfl, rfl⟩
      | cons v left =>
        cases left with
        | cons v' left => exact Or.inl ⟨_, w, by cases v <;> rfl⟩
        | nil =>
          cases v with
          | dict cell => exact Or.inr ⟨[(kw, .dict cell)], w, rfl, rfl⟩
          | _ => exact Or.inl ⟨_, w, rfl⟩
  | some name =>
    cases keywords with
    | none => exact Or.inr ⟨[(name, .list w.lists.size)], _, rfl, rfl⟩
    | some kw => exact Or.inr ⟨[(name, .list w.lists.size), (kw, .dict w.dicts.size)], _, rfl, rfl⟩

/-- **The scope of a call.** A function refuses its arguments, or binds its parameters over the variables of
the scope that it keeps. -/
theorem callScope_bindings (c : Closure) (args : List Value) (w : World) :
    (∃ f w', callScope c args w = .error (.fault f) w') ∨
      ∃ bound w', Bound c.params args bound ∧
        callScope c args w = .ok ((w.scope c.scope).putAll bound) w' := by
  rw [callScope_eq]
  split
  · exact Or.inl ⟨_, w, rfl⟩
  split
  · rename_i hn
    rcases bindCollectors_bindings _ (restName none c.params) (keywordsName none c.params) _ w with
      hf | ⟨bound, w', hm, he⟩
    · exact Or.inl hf
    · exact Or.inr ⟨_, w', ⟨hn, bound, rfl, hm⟩, by rw [Scope.putAll_append]; exact he⟩
  · exact Or.inl ⟨_, w, rfl⟩

/-- a function that refuses its arguments does not run -/
theorem callFunction_refused {m : Machine} {cell : Nat} {args : List Value} {w w' : World} {signal : Signal}
    (h : callScope (w.function cell) args w = .error signal w') :
    callFunction m cell args w = .error signal w' := by
  simp only [callFunction, bind_run, get_run, h]

/-- a function that refuses its arguments unless a condition holds -/
theorem callFunction_ite {m : Machine} {cell : Nat} {args : List Value} {w w₀ w' : World} {s : Scope}
    {signal : Signal} {p : Prop} [Decidable p]
    (h : callScope (w.function cell) args w = if p then .ok s w₀ else .error signal w') :
    callFunction m cell args w =
      if p then leaving w₀.active (runBlock m w₀.scopes.size .null (w.function cell).body) (w₀.enter s)
      else .error signal w' := by
  split
  · rename_i hp
    exact callFunction_run (h.trans (if_pos hp))
  · rename_i hp
    exact callFunction_refused (h.trans (if_neg hp))

/-- **A call of a function** is refused before its body starts, or is the body in a new scope: the arguments
over the variables that the scope of the function has at that moment. -/
theorem callFunction_bindings (cell : Nat) (args : List Value) (w : World) :
    (∃ f w', ∀ m, callFunction m cell args w = .error (.fault f) w') ∨
      ∃ bound, ∃ w' : World, Bound (w.function cell).params args bound ∧ ∀ m, callFunction m cell args w =
        leaving w'.active (runBlock m w'.scopes.size .null (w.function cell).body)
          (w'.enter ((w.scope (w.function cell).scope).putAll bound)) := by
  rcases callScope_bindings (w.function cell) args w with ⟨f, w', he⟩ | ⟨bound, w', hb, he⟩
  · exact Or.inl ⟨f, w', fun m => callFunction_refused he⟩
  · exact Or.inr ⟨bound, w', hb, fun m => callFunction_run he⟩

end BraceScript
