import BraceScript.Proofs.Call.Arguments

/-!
# What a call evaluates

A call evaluates the called expression first, then its arguments in order, and then its keyword arguments in
order. What follows depends on the called value only: a function of a program has parameters that the arguments
are bound to, and everything else that can be called takes the values of the keyword arguments after the
positional ones.

* `Named`                   keyword arguments, evaluated over those that were unpacked
* `Evaluates`               the called value and the arguments of a call
* `Evaluates.exec_function`   a call of a function of a program
* `Evaluates.exec_callable`   a call of a constructor or a bound method
-/

namespace BraceScript

open Exec

/-- keyword arguments evaluated in order over those that are there: each puts a value under its name, but the
name that marks unpacking puts the entries of a dictionary -/
inductive Named (m : Machine) (s : Nat) : List (String × Node) → World → Dict → Dict → World → Prop
  | nil {w d} : Named m s [] w d d w
  | value {name e rest v d d' w w₁ w₂} (plain : name ≠ "kwunpack") (run : m.exec e s w = .ok v w₁)
      (more : Named m s rest w₁ (d.insert (.str name) v) d' w₂) : Named m s ((name, e) :: rest) w d d' w₂
  | entries {e rest cell d d' w w₁ w₂} (run : m.exec e s w = .ok (.dict cell) w₁)
      (more : Named m s rest w₁ (d.update (w₁.dict cell)) d' w₂) :
      Named m s (("kwunpack", e) :: rest) w d d' w₂

/-- a call evaluates the called expression to a value, and its arguments to positional and keyword arguments -/
inductive Evaluates (m : Machine) (s : Nat) (callee : Node) (args : List Node)
    (keywords : List (String × Node)) (w : World) : Value → List Value → Dict → World → Prop
  | intro {f vs ds d w₁ w₂ w₃} (called : m.exec callee s w = .ok f w₁) (given : Argues m s args w₁ vs ds w₂)
      (named : Named m s keywords w₂ (ds.foldl Dict.update .empty) d w₃) :
      Evaluates m s callee args keywords w f vs d w₃

section
variable {m : Machine} {s : Nat} {w w' : World} {d d' : Dict}

theorem Named.run {keywords : List (String × Node)} (h : Named m s keywords w d d' w') (vs : List Value) :
    evalKeywords m s ⟨vs, d⟩ keywords w = .ok ⟨vs, d'⟩ w' := by
  induction h with
  | nil => rfl
  | value plain run _ ih =>
    rw [evalKeywords, bind_run, run]
    dsimp only
    rw [if_neg plain]
    exact ih
  | entries run _ ih =>
    rw [evalKeywords, bind_run, run]
    dsimp only
    rw [if_pos rfl]
    exact ih

theorem Named.distinct {keywords : List (String × Node)} (h : Named m s keywords w d d' w') (hd : d.Distinct) :
    d'.Distinct := by
  induction h with
  | nil => exact hd
  | value _ _ _ ih => exact ih (hd.insert _ _)
  | entries _ _ ih => exact ih (hd.update _)

variable {callee : Node} {args : List Node} {keywords : List (String × Node)} {f : Value} {vs : List Value}

/-- no two keyword arguments have the same name -/
theorem Evaluates.distinct (h : Evaluates m s callee args keywords w f vs d w') : d.Distinct := by
  obtain ⟨_, _, named⟩ := h
  exact named.distinct (merged_distinct _ [])

theorem Named.makes {n : Nat} {keywords : List (String × Node)} (h : Named (machine n) s keywords w d d' w') :
    w.Makes w' := by
  induction h with
  | nil => exact .of_eq rfl rfl
  | value _ run _ ih => exact (exec_makes run).trans ih
  | entries run _ ih => exact (exec_makes run).trans ih

theorem World.Makes.bindsMethod (h : w.Makes w') {f : Value} (hf : w'.bindsMethod f = false) :
    w.bindsMethod f = false := by
  cases f with
  | callable cell =>
    by_cases hc : cell < w.callables.size
    · have hsame : w'.callable cell = w.callable cell := h.callables.getD hc _ _
      rwa [World.bindsMethod, hsame] at hf
    · have hd : w.callable cell = default := by
        simp [World.callable, Array.getD_eq_getD_getElem?, Array.getElem?_eq_none (Nat.le_of_not_lt hc)]
      rw [World.bindsMethod, hd]
      rfl
  | _ => rfl

/-- a call goes on with the value of the callee and the evaluated arguments -/
theorem Evaluates.run {n : Nat} (h : Evaluates (machine n) s callee args keywords w f vs d w')
    (hf : w'.bindsMethod f = false) :
    evalCall (machine n) s callee args keywords w =
      applyCallee (machine n) s callee (.call callee args keywords) (.value f) ⟨vs, d⟩ w' := by
  obtain ⟨called, given, named⟩ := h
  unfold evalCall applyCall
  rw [bind_run, evalCallee_value called ((given.makes.trans named.makes).bindsMethod hf)]
  dsimp only
  rw [bind_run, given.run]
  dsimp only
  rw [bind_run, named.run]
  rfl

end

/-! ## calls -/

section
variable {n s : Nat} {callee : Node} {args : List Node} {keywords : List (String × Node)} {w w' : World}
  {vs : List Value} {d : Dict}

/-- a call of a function of a program binds the arguments to its parameters -/
theorem Evaluates.exec_function {cell : Nat}
    (h : Evaluates (machine (n + 1)) s callee args keywords w (.function cell) vs d w') :
    (machine (n + 2)).exec (.call callee args keywords) s w =
      (bindArguments (machine (n + 1)) s (w'.function cell).params ⟨vs, d⟩ >>=
        callFunction (machine n) cell) w' := h.run rfl

/-- a constructor or a bound method gets the values of the keyword arguments after the positional ones -/
theorem Evaluates.exec_callable {cell : Nat}
    (h : Evaluates (machine (n + 1)) s callee args keywords w (.callable cell) vs d w')
    (hc : (w'.callable cell).isOwn = false) :
    (machine (n + 2)).exec (.call callee args keywords) s w =
      callValue (machine n) (.callable cell) (vs ++ d.values) w' := h.run hc

theorem Evaluates.exec_builtin {b : Builtin}
    (h : Evaluates (machine (n + 1)) s callee args keywords w (.builtin b) vs d w') :
    (machine (n + 2)).exec (.call callee args keywords) s w =
      callBuiltin (machine n) b (vs ++ d.values) w' := h.run rfl

end

end BraceScript
