import BraceScript.Proofs.Call.CallArguments

/-!
# Parameters that collect positional arguments

A call of a function with a parameter for the remaining arguments packs them twice. The tree of the call puts
the arguments that are left into a list, and the keyword arguments into a dictionary, and hands these over as
single arguments; the function then packs whatever comes after its plain parameters into a list of its own. So
the parameter holds a list whose first item is the list of the remaining arguments, and whose second item is the
dictionary of the keyword arguments, if a parameter is there to collect these. That parameter gets nothing.

* `Variadic`                 plain parameters, one for the remaining arguments, maybe one for keyword arguments
* `bindCollecting_plain`     plain parameters take positional arguments in order
* `Variadic.bindArguments_run`   what the tree of the call packs
* `Variadic.callScope_run`       what the function packs
* `Evaluates.exec_variadic`      both together
* `call_variadic`            what the body of the function starts from
-/

namespace BraceScript

open Exec

/-- plain parameters, one that collects the remaining positional arguments, and maybe one that collects keyword
arguments -/
structure Variadic where
  plain : List (String × Option Node)
  rest : String
  keywords : Option String

/-- with a positional argument for each, plain parameters take these in order, and the other parameters get what
is left -/
theorem bindCollecting_plain {m : Machine} {s : Nat} {ps : List (String × Option Node)} {vs : List Value}
    (h : ps.length ≤ vs.length) (d : Dict) (tail : List (Param Node)) :
    bindCollecting m s ⟨vs, d⟩ (ps.map (fun p => .plain p.1 p.2) ++ tail) =
      bindCollecting m s ⟨vs.drop ps.length, d⟩ tail >>= fun r => pure (vs.take ps.length ++ r.1, r.2) := by
  induction ps generalizing vs with
  | nil => simp
  | cons p ps ih =>
    cases vs with
    | nil => cases h
    | cons v vs =>
      have hr := ih (Nat.le_of_succ_le_succ h)
      rw [List.map_cons, List.cons_append]
      show bindCollecting m s ⟨vs, d⟩ _ >>= (fun r => pure (v :: r.1, r.2)) = _
      rw [hr]
      simp

namespace Variadic

variable (σ : Variadic)

def names : List String := σ.plain.map Prod.fst

/-- the parameters -/
def params : List (Param Node) :=
  σ.plain.map (fun p => .plain p.1 p.2) ++ .rest σ.rest :: (σ.keywords.map Param.keywords).toList

/-- a new list, and a new dictionary if keyword arguments are collected -/
def pack (items : List Value) (d : Dict) (w : World) : World :=
  { w with
    lists := w.lists.push items.toArray
    dicts := if σ.keywords.isSome then w.dicts.push d else w.dicts }

/-- that list and that dictionary -/
def packed (w : World) : List Value :=
  .list w.lists.size :: (σ.keywords.map fun _ => .dict w.dicts.size).toList

/-- the parameters that collect arguments, bound to that list and that dictionary -/
def bound (w : World) : List (String × Value) :=
  (σ.rest, .list w.lists.size) :: (σ.keywords.map fun name => (name, .dict w.dicts.size)).toList

/-! ## what a call packs -/

theorem fixedNames_params : fixedNames σ.params = σ.names := by
  rw [params, fixedNames_append]
  cases σ.keywords <;> exact List.append_nil _

theorem restName_params : restName none σ.params = some σ.rest := by
  rw [params, restName_append]
  cases σ.keywords <;> rfl

theorem keywordsName_params : keywordsName none σ.params = σ.keywords := by
  rw [params, keywordsName_append]
  cases σ.keywords <;> rfl

theorem any_isReceiver : σ.params.any Param.isReceiver = false := by
  rw [params, List.any_append, List.any_cons]
  cases σ.keywords <;> simp [Param.isReceiver]

theorem any_isCollector : σ.params.any Param.isCollector = true := by
  rw [params, List.any_append, List.any_cons]
  simp [Param.isCollector]

/-- **The arguments in the order of the parameters:** one for each plain parameter, the list of those that are
left, and the dictionary of the keyword arguments. -/
theorem bindArguments_run {m : Machine} {s : Nat} {vs : List Value} {d : Dict}
    (h : σ.plain.length ≤ vs.length) (hd : σ.keywords = none → d = .empty) (w : World) :
    bindArguments m s σ.params ⟨vs, d⟩ w =
      .ok (vs.take σ.plain.length ++ σ.packed w) (σ.pack (vs.drop σ.plain.length) d w) := by
  unfold bindArguments
  rw [σ.any_isReceiver, σ.any_isCollector, if_neg Bool.false_ne_true, if_pos rfl, params,
    bindCollecting_plain h]
  cases hk : σ.keywords with
  | none =>
    rw [hd hk]
    simp [bindCollecting, newList, modifyGet_run, packed, pack, hk, Dict.empty]
  | some kw => simp [bindCollecting, newList, newDict, modifyGet_run, packed, pack, hk, Dict.empty]

/-- **The scope of a call** with one argument for each plain parameter and others after them. -/
theorem callScope_run {c : Closure} (hc : c.params = σ.params) {given : List Value}
    (hl : given.length = σ.plain.length) (left : List Value) (w : World) :
    callScope c (given ++ left) w =
      if σ.plain.isEmpty || (given ++ left).all w.showable then
        .ok ((w.scope c.scope).putAll (σ.names.zip given ++ σ.bound w)) (σ.pack left .empty w)
      else .error (.fault .tooManyDigits) w := by
  have hn : given.length = (fixedNames c.params).length := by
    rw [hc, fixedNames_params, names, List.length_map, hl]
  rw [callScope_append hn, hc, fixedNames_params, restName_params, keywordsName_params, names,
    List.isEmpty_map, Scope.putAll_append]
  unfold bound pack
  cases σ.keywords <;> rfl

/-! ## what is packed is found -/

theorem list_pack_new (items : List Value) (d : Dict) (w : World) :
    (σ.pack items d w).list w.lists.size = items.toArray := by
  simp [pack, World.list]

theorem list_pack_old (items : List Value) (d : Dict) {w : World} {cell : Nat} (h : cell < w.lists.size) :
    (σ.pack items d w).list cell = w.list cell := by
  simp [pack, World.list, Array.getD_eq_getD_getElem?, Array.getElem?_push_lt, h]

theorem dict_pack_new (items : List Value) (d : Dict) (w : World) (h : σ.keywords.isSome = true) :
    (σ.pack items d w).dict w.dicts.size = d := by
  simp [pack, World.dict, h]

theorem dict_pack_old (items : List Value) (d : Dict) {w : World} {cell : Nat} (h : cell < w.dicts.size) :
    (σ.pack items d w).dict cell = w.dict cell := by
  unfold pack World.dict
  dsimp only
  split
  · simp [Array.getD_eq_getD_getElem?, Array.getElem?_push_lt, h]
  · rfl

theorem size_dicts_pack (items : List Value) (d : Dict) (w : World) (h : σ.keywords.isSome = true) :
    (σ.pack items d w).dicts.size = w.dicts.size + 1 := by
  simp [pack, h]

theorem find?_rest (base : Scope) (ms : List (String × Value)) (w : World) (h : σ.keywords ≠ some σ.rest) :
    (base.putAll (ms ++ σ.bound w)).find? σ.rest = some (.list w.lists.size) := by
  rw [Scope.putAll_append]
  unfold bound
  cases hk : σ.keywords with
  | none => exact (Scope.find?_insert _ σ.rest σ.rest _).trans (if_pos rfl)
  | some kw =>
    have hne : ¬ σ.rest = kw := fun he => h (hk.trans (congrArg some he.symm))
    refine (Scope.find?_insert _ kw σ.rest _).trans ?_
    rw [if_neg hne]
    exact (Scope.find?_insert _ σ.rest σ.rest _).trans (if_pos rfl)

theorem find?_keywords (base : Scope) (ms : List (String × Value)) (w : World) {kw : String}
    (h : σ.keywords = some kw) :
    (base.putAll (ms ++ σ.bound w)).find? kw = some (.dict w.dicts.size) := by
  rw [Scope.putAll_append]
  unfold bound
  rw [h]
  exact (Scope.find?_insert _ kw kw _).trans (if_pos rfl)

end Variadic

/-! ## calls -/

/-- a call with enough positional arguments packs them, and the function packs what comes after its plain
parameters -/
theorem Evaluates.exec_variadic {n s cell : Nat} {callee : Node} {args : List Node}
    {keywords : List (String × Node)} {vs : List Value} {d : Dict} {σ : Variadic} {w w' : World}
    (he : Evaluates (machine (n + 1)) s callee args keywords w (.function cell) vs d w')
    (hp : (w'.function cell).params = σ.params) (hc : σ.plain.length ≤ vs.length)
    (hd : σ.keywords = none → d = .empty) :
    let u := σ.pack (vs.drop σ.plain.length) d w'
    let u' := σ.pack (σ.packed w') .empty u
    (machine (n + 2)).exec (.call callee args keywords) s w =
      if σ.plain.isEmpty || (vs.take σ.plain.length ++ σ.packed w').all u.showable then
        leaving u'.active (runBlock (machine n) u'.scopes.size .null (w'.function cell).body)
          (u'.enter ((w'.scope (w'.function cell).scope).putAll
            (σ.names.zip (vs.take σ.plain.length) ++ σ.bound u)))
      else .error (.fault .tooManyDigits) u := by
  intro u u'
  have hscope := σ.callScope_run hp (List.length_take_of_le hc) (σ.packed w') u
  rw [he.exec_function, hp, bind_run, σ.bindArguments_run hc hd]
  exact callFunction_ite hscope

/-- **What a call with enough positional arguments binds.** Each plain parameter has its argument. The parameter
for the remaining arguments is bound to a new list of one item, the list of these arguments in order, or of two
items if keyword arguments are collected, the second being the dictionary of all keyword arguments; the parameter
for keyword arguments is bound to a new dictionary without entries. Only if an argument has no text, because it
holds a number of too many digits, and there is a plain parameter, the call fails instead. -/
theorem call_variadic {n s cell : Nat} {callee : Node} {args : List Node} {keywords : List (String × Node)}
    {vs : List Value} {d : Dict} {σ : Variadic} {w w' : World}
    (he : Evaluates (machine (n + 1)) s callee args keywords w (.function cell) vs d w')
    (hp : (w'.function cell).params = σ.params) (hc : σ.plain.length ≤ vs.length)
    (hd : σ.keywords = none → d = .empty) :
    let u := σ.pack (vs.drop σ.plain.length) d w'
    let u' := σ.pack (σ.packed w') .empty u
    let scope := (w'.scope (w'.function cell).scope).putAll
      (σ.names.zip (vs.take σ.plain.length) ++ σ.bound u)
    (machine (n + 2)).exec (.call callee args keywords) s w =
        (if σ.plain.isEmpty || (vs.take σ.plain.length ++ σ.packed w').all u.showable then
          leaving u'.active (runBlock (machine n) u'.scopes.size .null (w'.function cell).body)
            (u'.enter scope)
        else .error (.fault .tooManyDigits) u) ∧
      (σ.keywords ≠ some σ.rest → scope.find? σ.rest = some (.list u.lists.size)) ∧
      u'.list u.lists.size = (σ.packed w').toArray ∧
      u'.list w'.lists.size = (vs.drop σ.plain.length).toArray ∧
      ∀ kw, σ.keywords = some kw → scope.find? kw = some (.dict u.dicts.size) ∧
        u'.dict u.dicts.size = .empty ∧ u'.dict w'.dicts.size = d := by
  intro u u' scope
  refine ⟨he.exec_variadic hp hc hd, σ.find?_rest _ _ u, σ.list_pack_new _ _ u, ?_, fun kw hk => ?_⟩
  · have hlt : w'.lists.size < u.lists.size := by
      show w'.lists.size < (w'.lists.push _).size
      rw [Array.size_push]
      omega
    exact (σ.list_pack_old _ _ hlt).trans (σ.list_pack_new _ d w')
  · have hs : σ.keywords.isSome = true := by rw [hk]; rfl
    have hlt : w'.dicts.size < u.dicts.size := by
      rw [show u.dicts.size = w'.dicts.size + 1 from σ.size_dicts_pack _ _ _ hs]
      omega
    exact ⟨σ.find?_keywords _ _ u hk, σ.dict_pack_new _ _ u hs,
      (σ.dict_pack_old _ _ hlt).trans (σ.dict_pack_new _ d w' hs)⟩

/-- the parameters `a, *r, **k` -/
def Variadic.sample : Variadic := ⟨[("a", none)], "r", some "k"⟩

/-- a state with a function `f` of these parameters that gives `r` -/
def World.sampleVariadic : World :=
  { (default : World) with
    scopes := #[⟨[("f", .function 0)], none⟩]
    functions := #[⟨Variadic.sample.params, [.var "r"], 0⟩] }

/-- the call `f("p", "q", c = "v")`: `r` is a list of a list and a dictionary, and `k` has no entries -/
theorem call_variadic_sample :
    (machine 3).exec (.call (.var "f") [.str "p", .str "q"] [("c", .str "v")]) 0 World.sampleVariadic =
      .ok (.list 1) { World.sampleVariadic with
        lists := #[#[.str "q"], #[.list 0, .dict 0]]
        dicts := #[⟨[(.str "c", .str "v")]⟩, .empty]
        scopes := #[⟨[("f", .function 0)], none⟩,
          ⟨[("k", .dict 1), ("r", .list 1), ("a", .str "p"), ("f", .function 0)], none⟩] } := by
  have he : Evaluates (machine 2) 0 (.var "f") [.str "p", .str "q"] [("c", .str "v")] World.sampleVariadic
      (.function 0) [.str "p", .str "q"] ⟨[(.str "c", .str "v")]⟩ World.sampleVariadic :=
    .intro rfl (.value nofun nofun nofun rfl (.value nofun nofun nofun rfl .nil))
      (.value (by decide) rfl .nil)
  have hp : (World.sampleVariadic.function 0).params = Variadic.sample.params := rfl
  have hshown : ([.str "p", .list 0, .dict 0] : List Value).all
      (Variadic.sample.pack [.str "q"] ⟨[(.str "c", .str "v")]⟩ World.sampleVariadic).showable = true := by
    decide +kernel
  exact ((call_variadic he hp (by decide) nofun).1.trans (if_pos hshown)).trans rfl

end BraceScript
