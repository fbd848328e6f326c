import BraceScript.Proofs.Call.Variadic
import BraceScript.Proofs.Exec.Depth
import BraceScript.Proofs.Exec.Fuel

/-!
# Mapping a function over a list

The builtin function that maps another one over a list hands each item to it as its only argument, and nothing
else: no default is evaluated and nothing is packed, as the tree of a call would do. So it does what the calls do
one after another only if the function has exactly one plain parameter and collects no positional arguments.

* `mapStep`              one item
* `CallsEach`            the calls one after another, each in the state that the one before it left
* `CallsEach.foldList`   with one plain parameter, the items give the values of the calls
* `map_calls`            what a call of the builtin function does
-/

namespace BraceScript

open Exec

/-! ## items -/

/-- one item: call the function with it, and keep the result -/
def mapStep (m : Machine) (cell : Nat) (results : Array Value) (x : Value) : Exec (Array Value) := do
  return results.push (← callFunction m cell [x])

section
variable {α : Type} {cell fuel i : Nat} {f : α → Value → Exec α} {a : α} {w : World}

theorem foldList_done (h : (w.list cell)[i]? = none) : foldList cell f (fuel + 1) i a w = .ok a w := by
  rw [foldList, bind_run]
  dsimp only [get_run]
  rw [h]
  rfl

theorem foldList_item {x : Value} (h : (w.list cell)[i]? = some x) :
    foldList cell f (fuel + 1) i a w = (f a x >>= foldList cell f fuel (i + 1)) w := by
  rw [foldList, bind_run]
  dsimp only [get_run]
  rw [h]

end

/-- the builtin function goes through the items of the list -/
theorem callBuiltin_map (n cell list : Nat) :
    callBuiltin (machine (n + 1)) .map [.function cell, .list list] =
      foldList list (mapStep (machine n) cell) n 0 #[] >>= fun results => newList results := rfl

/-! ## one plain parameter -/

/-- the function called by trees with the items of a list from an index on, one after another. Each call has the
item as its only argument and runs in the state that the one before it left; its parts are evaluated without a
change of that state. -/
inductive CallsEach (n cell list : Nat) : Nat → World → List Value → World → Prop
  | done {i w} (stop : (w.list list)[i]? = none) : CallsEach n cell list i w [] w
  | call {i s callee args keywords x v vs w w₁ w₂} (item : (w.list list)[i]? = some x)
      (parts : Evaluates (machine (n + 1)) s callee args keywords w (.function cell) [x] .empty w)
      (run : (machine (n + 2)).exec (.call callee args keywords) s w = .ok v w₁)
      (more : CallsEach n cell list (i + 1) w₁ vs w₂) : CallsEach n cell list i w (v :: vs) w₂

namespace Signature

variable {σ : Signature} {x : Value}

theorem plain_ne_nil (h : σ.plain.length = 1) : σ.plain ≠ [] := List.ne_nil_of_length_eq_add_one h

theorem length_one (h : σ.plain.length = 1) (x : Value) : [x].length = σ.names.length := by
  rw [names, List.length_map, h]
  rfl

/-- one argument for one plain parameter is accepted -/
theorem accepts_one (h : σ.plain.length = 1) : σ.Accepts 1 .empty where
  fits := Nat.le_of_eq h.symm
  once _ _ := rfl
  supplied p hp := by
    rw [List.drop_eq_nil_of_le (Nat.le_of_eq h)] at hp
    cases hp
  known _ k hk := by cases hk

/-- a call with one argument adds a dictionary without entries if keyword arguments are collected -/
theorem bindArguments_one (h : σ.plain.length = 1) (m : Machine) (s : Nat) (w : World) :
    bindArguments m s σ.params ⟨[x], .empty⟩ w =
      .ok ([x] ++ (σ.collected w.dicts.size).map Prod.snd) (σ.gather .empty w) := by
  have ha : σ.Accepts [x].length .empty := accepts_one h
  have hs : σ.supplied m s .empty [x].length = pure [] := by
    have hdrop : σ.plain.drop [x].length = [] := List.drop_eq_nil_of_le (Nat.le_of_eq h)
    rw [supplied, hdrop]
    rfl
  rw [σ.bindArguments_run Dict.distinct_empty ha, hs]
  rfl

/-- without that dictionary the function makes one -/
theorem callScope_one (h : σ.plain.length = 1) {c : Closure} (hc : c.params = σ.params) (x : Value) (w : World) :
    callScope c [x] w =
      if w.showable x then
        .ok ((w.scope c.scope).putAll (σ.names.zip [x] ++ σ.collected w.dicts.size)) (σ.gather .empty w)
      else .error (.fault .tooManyDigits) w := by
  have hl : [x].length = (fixedNames c.params).length := by
    rw [hc, fixedNames_params, length_one h]
  have hne : σ.names.isEmpty = false := by
    rw [names, List.isEmpty_map]
    exact List.isEmpty_eq_false_iff.mpr (plain_ne_nil h)
  have hall : [x].all w.showable = w.showable x := by simp
  have hscope := callScope_append hl [] w
  rw [List.append_nil, hc, fixedNames_params, restName_params, keywordsName_params, hne, Bool.false_or,
    hall] at hscope
  rw [hscope, Scope.putAll_append]
  unfold collected gather
  cases σ.collector <;> rfl

theorem showable_gather (w : World) : (σ.gather .empty w).showable = w.showable := by
  unfold gather
  split
  · exact w.showable_push_empty
  · rfl

/-- **A call by a tree that gives a value** is the call with that argument alone. -/
theorem callFunction_one {n s cell : Nat} {callee : Node} {args : List Node} {keywords : List (String × Node)}
    {v : Value} {w w' u : World} (h : σ.plain.length = 1)
    (he : Evaluates (machine (n + 1)) s callee args keywords w (.function cell) [x] .empty w')
    (hp : (w'.function cell).params = σ.params)
    (run : (machine (n + 2)).exec (.call callee args keywords) s w = .ok v u) :
    callFunction (machine n) cell [x] w' = .ok v u := by
  have hf := σ.gather_function .empty w' cell
  have hscope := σ.callScope_run (hf ▸ hp) (length_one h x) w'.dicts.size (σ.gather .empty w')
  rw [he.exec_function, hp, bind_run, bindArguments_one h] at run
  split at hscope
  · rename_i hshown
    have hne : σ.plain.isEmpty = false := List.isEmpty_eq_false_iff.mpr (plain_ne_nil h)
    rw [hne, Bool.false_or, List.singleton_append, List.all_cons, Bool.and_eq_true, showable_gather] at hshown
    have hone := callScope_one h hp x w'
    rw [if_pos hshown.1] at hone
    rw [callFunction_run hone, ← run]
    refine Eq.trans ?_ (callFunction_run hscope).symm
    rw [hf, gather_scope]
  · rename_i hshown
    replace run : callFunction (machine n) cell ([x] ++ (σ.collected w'.dicts.size).map Prod.snd)
      (σ.gather .empty w') = .ok v u := run
    rw [callFunction_refused hscope] at run
    cases run

end Signature

/-- more fuel does not change a call that gives a value -/
theorem callFunction_mono {n k cell : Nat} {args : List Value} {v : Value} {w u : World} (hk : n ≤ k)
    (h : callFunction (machine n) cell args w = .ok v u) : callFunction (machine k) cell args w = .ok v u := by
  rcases call_mono (Nat.add_le_add_right hk 1) (.function cell) args w with he | ⟨u', hu⟩
  · exact he.symm.trans h
  · cases h.symm.trans hu

/-- **With one plain parameter, the items give the values of the calls,** and leave the state that these leave. -/
theorem CallsEach.foldList {n k cell list fuel i : Nat} {vs : List Value} {w w' : World} {σ : Signature}
    (h : CallsEach n cell list i w vs w') (hk : n ≤ k) (hσ : σ.plain.length = 1)
    (hp : (w.function cell).params = σ.params) (hf : vs.length < fuel) (results : Array Value) :
    foldList list (mapStep (machine k) cell) fuel i results w = .ok (results ++ vs.toArray) w' := by
  induction h generalizing fuel results with
  | done stop =>
    obtain ⟨fuel, rfl⟩ := Nat.exists_eq_add_one.mpr hf
    rw [foldList_done stop, Array.append_empty]
  | call item parts run more ih =>
    rw [List.length_cons] at hf
    obtain ⟨fuel, rfl⟩ := Nat.exists_eq_add_one.mpr (Nat.zero_lt_of_lt hf)
    have hcall := callFunction_mono hk (Signature.callFunction_one hσ parts hp run)
    have hsame := Signature.function_makes (Signature.plain_ne_nil hσ) hp (exec_makes run)
    rw [foldList_item item, bind_run, mapStep, bind_run, hcall]
    dsimp only [pure_run]
    rw [ih (hsame ▸ hp) (Nat.lt_of_succ_lt_succ hf)]
    simp

/-! ## other parameters -/

section
variable {m : Machine} {cell list fuel : Nat} {x : Value} {w : World}

/-- a function that refuses the first item ends the call -/
theorem foldList_refused {signal : Signal} {u : World} (h : (w.list list)[0]? = some x)
    (hr : callScope (w.function cell) [x] w = .error signal u) :
    (foldList list (mapStep m cell) (fuel + 1) 0 #[] >>= fun results => newList results) w = .error signal u := by
  rw [bind_run, foldList_item h, bind_run, mapStep, bind_run, callFunction_refused hr]

/-- one argument is too few for two names -/
theorem callScope_few {c : Closure} (h : 2 ≤ (fixedNames c.params).length) (x : Value) (w : World) :
    callScope c [x] w = .error (.fault (if w.showable x then .indexRange "list" else .tooManyDigits)) w := by
  have hne : (fixedNames c.params).isEmpty = false :=
    List.isEmpty_eq_false_iff.mpr (List.ne_nil_of_length_pos (Nat.lt_of_lt_of_le Nat.zero_lt_two h))
  have hfew : ¬ (fixedNames c.params).length ≤ [x].length := Nat.not_le_of_lt h
  rw [callScope_eq, hne, if_neg hfew]
  cases hx : w.showable x <;> simp [hx]

/-- without a plain parameter, an argument is left over; it may be the dictionary of the keyword arguments -/
theorem Signature.callScope_none {σ : Signature} (h : σ.plain = []) {c : Closure} (hc : c.params = σ.params)
    (x : Value) (w : World) : callScope c [x] w = bindCollectors (w.scope c.scope) none σ.collector [x] w := by
  have hn : σ.names = [] := by rw [names, h, List.map_nil]
  have hl : ([] : List Value).length = (fixedNames c.params).length := by rw [hc, fixedNames_params, hn]; rfl
  have hscope := callScope_append hl [x] w
  rw [hc, fixedNames_params, restName_params, keywordsName_params, hn] at hscope
  exact hscope

theorem bindCollectors_value {base : Scope} {kw : String} (h : ∀ d, x ≠ .dict d) :
    bindCollectors base none (some kw) [x] w = .error (.fault (.keywordDict kw)) w := by
  cases x with
  | dict d => exact absurd rfl (h d)
  | _ => rfl

/-- one argument alone is packed once -/
theorem Variadic.callFunction_one {σ : Variadic} (h : σ.plain.length ≤ 1)
    (hp : (w.function cell).params = σ.params) (x : Value) :
    callFunction m cell [x] w =
      if σ.plain.isEmpty || [x].all w.showable then
        leaving w.active (runBlock m w.scopes.size .null (w.function cell).body)
          ((σ.pack ([x].drop σ.plain.length) .empty w).enter ((w.scope (w.function cell).scope).putAll
            (σ.names.zip ([x].take σ.plain.length) ++ σ.bound w)))
      else .error (.fault .tooManyDigits) w := by
  have hl : ([x].take σ.plain.length).length = σ.plain.length := List.length_take_of_le h
  have hscope := σ.callScope_run hp hl ([x].drop σ.plain.length) w
  rw [List.take_append_drop] at hscope
  exact callFunction_ite hscope

end

/-! ## calls -/

/-- **What the builtin function does with a function of a program.** It calls the function with each item alone. If
the function has one plain parameter, and none for the remaining arguments, and the calls by trees all give
values, the result is a new list of these values in order, in the state that the calls leave. Otherwise there is
no such agreement. Two or more parameters that take an argument, also with defaults, end the call at its first
item, and so does no parameter at all. A parameter for keyword arguments alone takes the item if it is a
dictionary, and ends the call if not. A parameter for the remaining arguments is bound to the list of them, where
a call by a tree binds it to a list that holds that list. -/
theorem map_calls {k s cell list : Nat} {callee : Node} {args : List Node} {keywords : List (String × Node)}
    {w₀ w : World}
    (he : Evaluates (machine (k + 3)) s callee args keywords w₀ (.builtin .map) [.function cell, .list list]
      .empty w) :
    let ended := (machine (k + 4)).exec (.call callee args keywords) s w₀
    let params := (w.function cell).params
    ended = (foldList list (mapStep (machine (k + 1)) cell) (k + 1) 0 #[] >>= fun results =>
      newList results) w ∧
    (∀ σ : Signature, params = σ.params → σ.plain.length = 1 →
      ∀ n vs w', CallsEach n cell list 0 w vs w' → n ≤ k + 1 → vs.length ≤ k →
        ended = .ok (.list w'.lists.size) { w' with lists := w'.lists.push vs.toArray }) ∧
    (∀ x, (w.list list)[0]? = some x →
      (2 ≤ (fixedNames params).length →
        ended = .error (.fault (if w.showable x then .indexRange "list" else .tooManyDigits)) w) ∧
      ∀ σ : Signature, params = σ.params → σ.plain = [] →
        (σ.collector = none → ended = .error (.fault .tooManyArguments) w) ∧
        ∀ kw, σ.collector = some kw →
          ((∀ d, x ≠ .dict d) → ended = .error (.fault (.keywordDict kw)) w) ∧
          ∀ d, x = .dict d → callFunction (machine (k + 1)) cell [x] w =
            leaving w.active (runBlock (machine (k + 1)) w.scopes.size .null (w.function cell).body)
              (w.enter ((w.scope (w.function cell).scope).insert kw x))) ∧
    ∀ σ : Variadic, σ.plain.length ≤ 1 → σ.keywords ≠ some σ.rest →
      ∀ x u, (u.function cell).params = σ.params →
        let left := [x].drop σ.plain.length
        let given := σ.names.zip ([x].take σ.plain.length)
        let base := u.scope (u.function cell).scope
        let u₁ := σ.pack left .empty u
        let u₂ := σ.pack (σ.packed u) .empty u₁
        let mapped := base.putAll (given ++ σ.bound u)
        let called := base.putAll (given ++ σ.bound u₁)
        callFunction (machine (k + 1)) cell [x] u =
          (if σ.plain.isEmpty || [x].all u.showable then
            leaving u₁.active (runBlock (machine (k + 1)) u₁.scopes.size .null (u.function cell).body)
              (u₁.enter mapped)
          else .error (.fault .tooManyDigits) u) ∧
        (∀ s callee args keywords u₀,
          Evaluates (machine (k + 2)) s callee args keywords u₀ (.function cell) [x] .empty u →
          (machine (k + 3)).exec (.call callee args keywords) s u₀ =
            if σ.plain.isEmpty || ([x].take σ.plain.length ++ σ.packed u).all u₁.showable then
              leaving u₂.active (runBlock (machine (k + 1)) u₂.scopes.size .null (u.function cell).body)
                (u₂.enter called)
            else .error (.fault .tooManyDigits) u₁) ∧
        mapped.find? σ.rest = some (.list u.lists.size) ∧ u₁.list u.lists.size = left.toArray ∧
        called.find? σ.rest = some (.list u₁.lists.size) ∧ u₂.list u₁.lists.size = (σ.packed u).toArray := by
  intro ended params
  have hmap : ended = (foldList list (mapStep (machine (k + 1)) cell) (k + 1) 0 #[] >>= fun results =>
      newList results) w := by
    rw [← callBuiltin_map]
    exact he.exec_builtin
  refine ⟨hmap, ?_, ?_, ?_⟩
  · intro σ hp hσ n vs w' hcalls hn hl
    rw [hmap, bind_run, hcalls.foldList hn hσ hp (Nat.lt_succ_of_le hl), Array.empty_append]
    rfl
  · intro x hx
    refine ⟨fun hfew => ?_, fun σ hp hσ => ⟨fun hc => ?_, fun kw hc => ⟨fun hd => ?_, ?_⟩⟩⟩
    · rw [hmap]
      exact foldList_refused hx (callScope_few hfew x w)
    · have hscope := Signature.callScope_none hσ hp x w
      rw [hc] at hscope
      rw [hmap]
      exact foldList_refused hx hscope
    · have hscope := Signature.callScope_none hσ hp x w
      rw [hc, bindCollectors_value hd] at hscope
      rw [hmap]
      exact foldList_refused hx hscope
    · rintro d rfl
      have hscope := Signature.callScope_none hσ hp (.dict d) w
      rw [hc] at hscope
      exact callFunction_run hscope
  · intro σ hσ hne x u hp left given base u₁ u₂ mapped called
    refine ⟨Variadic.callFunction_one hσ hp x, ?_, σ.find?_rest _ _ u hne, σ.list_pack_new _ _ u,
      σ.find?_rest _ _ u₁ hne, σ.list_pack_new _ _ u₁⟩
    intro s callee args keywords u₀ hu
    exact hu.exec_variadic hp hσ fun _ => rfl

/-- a state with a function `f` of some parameters that gives `x`, a list `l` of two texts, and some more scopes -/
def World.sampleMap (params : List (Param Node)) (scopes : List Scope) : World :=
  { (default : World) with
    scopes := (⟨[("map", .builtin .map), ("f", .function 0), ("l", .list 0)], none⟩ :: scopes).toArray
    lists := #[#[.str "p", .str "q"]]
    functions := #[⟨params, [.var "x"], 0⟩] }

/-- the scope of a call of `f` -/
def Scope.sampleCall (x : String) : Scope :=
  ⟨[("x", .str x), ("map", .builtin .map), ("f", .function 0), ("l", .list 0)], none⟩

/-- the call `map(f, l)`: a function of `x` gives a list of both texts, and a function of `x` and `y = "r"` gives
none -/
theorem map_calls_sample :
    (machine 6).exec (.call (.var "map") [.var "f", .var "l"] []) 0 (World.sampleMap [.plain "x" none] []) =
      .ok (.list 1) { World.sampleMap [.plain "x" none] [.sampleCall "p", .sampleCall "q"] with
        lists := #[#[.str "p", .str "q"], #[.str "p", .str "q"]] } ∧
    (machine 6).exec (.call (.var "map") [.var "f", .var "l"] []) 0
        (World.sampleMap [.plain "x" none, .plain "y" (some (.str "r"))] []) =
      .error (.fault (.indexRange "list")) (World.sampleMap [.plain "x" none, .plain "y" (some (.str "r"))] []) := by
  have he : ∀ params, Evaluates (machine 5) 0 (.var "map") [.var "f", .var "l"] [] (World.sampleMap params [])
      (.builtin .map) [.function 0, .list 0] .empty (World.sampleMap params []) := fun params =>
    .intro rfl (.value nofun nofun nofun rfl (.value nofun nofun nofun rfl .nil)) .nil
  have hparts : ∀ x scopes, Evaluates (machine 2) 0 (.var "f") [.str x] []
      (World.sampleMap [.plain "x" none] scopes) (.function 0) [.str x] .empty
      (World.sampleMap [.plain "x" none] scopes) := fun x scopes =>
    .intro rfl (.value nofun nofun nofun rfl .nil) .nil
  have hcalls : CallsEach 1 0 0 0 (World.sampleMap [.plain "x" none] []) [.str "p", .str "q"]
      (World.sampleMap [.plain "x" none] [.sampleCall "p", .sampleCall "q"]) :=
    .call rfl (hparts "p" []) rfl (.call rfl (hparts "q" [.sampleCall "p"]) rfl (.done rfl))
  constructor
  · exact (map_calls (he _)).2.1 ⟨[("x", none)], none, List.nodup_singleton _⟩ rfl rfl 1 _ _ hcalls (by decide)
      (by decide)
  · exact ((map_calls (he _)).2.2.1 (.str "p") rfl).1 (by decide)

end BraceScript
