import BraceScript.Proofs.Call.Scope
import BraceScript.Proofs.Exec.Untouched

/-!
# Arguments and parameters

A call binds arguments twice: the tree of the call puts them in the order of the parameters, and the function
then gives each parameter its argument. Two loops do the first, one for functions that collect arguments and one
for the others, and they differ in what comes first, a keyword argument or a positional one. They agree wherever
no parameter has both.

* `Argues`, `Names`        what the arguments of a call are evaluated to
* `Signature`              plain parameters, and maybe one that collects keyword arguments
* `Signature.Accepts`      arguments that a signature accepts
* `Takes`                  how both loops take arguments
* `Signature.bindArguments_run`   the arguments in the order of the parameters
* `call_binds`             what the body of the function starts from
-/

namespace BraceScript

open Exec

/-! ## evaluated arguments -/

/-- the arguments of a call in order, evaluated in a scope: positional values, and the dictionaries that were
unpacked for keyword arguments. A dictionary may come as a tuple that is marked for unpacking. -/
inductive Argues (m : Machine) (s : Nat) :
    List Node → World → List Value → List Dict → World → Prop
  | nil {w} : Argues m s [] w [] [] w
  | value {e rest v vs ds w w₁ w₂} (hu : ∀ t, e ≠ .unpack t) (hk : ∀ t, e ≠ .keywordUnpack t)
      (hq : ∀ t, e ≠ .quoted t) (run : m.exec e s w = .ok v w₁) (more : Argues m s rest w₁ vs ds w₂) :
      Argues m s (e :: rest) w (v :: vs) ds w₂
  | list {e rest cell vs ds w w₁ w₂} (run : m.exec e s w = .ok (.list cell) w₁)
      (more : Argues m s rest w₁ vs ds w₂) :
      Argues m s (.unpack e :: rest) w ((w₁.list cell).toList ++ vs) ds w₂
  | tuple {e rest cell vs ds w w₁ w₂} (run : m.exec e s w = .ok (.tuple cell) w₁)
      (more : Argues m s rest w₁ vs ds w₂) :
      Argues m s (.unpack e :: rest) w (w₁.tuple cell ++ vs) ds w₂
  | dict {e rest cell vs ds w w₁ w₂} (run : m.exec e s w = .ok (.dict cell) w₁)
      (more : Argues m s rest w₁ vs ds w₂) :
      Argues m s (.keywordUnpack e :: rest) w vs (w₁.dict cell :: ds) w₂
  | marked {e rest cell dict others vs ds w w₁ w₂} (run : m.exec e s w = .ok (.tuple cell) w₁)
      (mark : w₁.tuple cell = .str "kwunpack" :: .dict dict :: others) (more : Argues m s rest w₁ vs ds w₂) :
      Argues m s (.keywordUnpack e :: rest) w vs (w₁.dict dict :: ds) w₂
  | quoted {t rest v vs ds w w₁ w₂} (run : m.exec (.quoted t) s w = .ok v w₁)
      (unmarked : isMarked v w₁ = .ok false w₁) (more : Argues m s rest w₁ vs ds w₂) :
      Argues m s (.quoted t :: rest) w (v :: vs) ds w₂
  | quotedMark {t rest cell dict others vs ds w w₁ w₂} (run : m.exec (.quoted t) s w = .ok (.tuple cell) w₁)
      (mark : w₁.tuple cell = .str "kwunpack" :: .dict dict :: others) (more : Argues m s rest w₁ vs ds w₂) :
      Argues m s (.quoted t :: rest) w vs (w₁.dict dict :: ds) w₂

/-- keyword arguments evaluated in order -/
inductive Names (m : Machine) (s : Nat) :
    List (String × Node) → World → List (String × Value) → World → Prop
  | nil {w} : Names m s [] w [] w
  | cons {name e rest v kws w w₁ w₂} (run : m.exec e s w = .ok v w₁) (more : Names m s rest w₁ kws w₂) :
      Names m s ((name, e) :: rest) w ((name, v) :: kws) w₂

/-- the keyword arguments of a call: the unpacked dictionaries one over another, and the named values over them -/
def merged (ds : List Dict) (kws : List (String × Value)) : Dict := (ds.foldl Dict.update .empty).putAll kws

theorem merged_distinct (ds : List Dict) (kws : List (String × Value)) : (merged ds kws).Distinct := by
  have hd : ∀ (d : Dict), d.Distinct → (ds.foldl Dict.update d).Distinct := by
    induction ds with
    | nil => exact fun _ h => h
    | cons d' ds ih => exact fun d h => ih _ (h.update d')
  exact (hd _ Dict.distinct_empty).putAll kws

section
variable {m : Machine} {s : Nat} {w w' : World}

theorem evalArguments_value {e : Node} (hu : ∀ t, e ≠ .unpack t) (hk : ∀ t, e ≠ .keywordUnpack t)
    (hq : ∀ t, e ≠ .quoted t) (a : Arguments) (rest : List Node) :
    evalArguments m s a (e :: rest) =
      m.exec e s >>= fun v => evalArguments m s { a with positional := a.positional ++ [v] } rest := by
  cases e with
  | unpack t => exact absurd rfl (hu t)
  | keywordUnpack t => exact absurd rfl (hk t)
  | quoted t => exact absurd rfl (hq t)
  | _ => rfl

theorem unmarked_mark {w : World} {cell dict : Nat} {others : List Value}
    (h : w.tuple cell = .str "kwunpack" :: .dict dict :: others) :
    unmarked (.tuple cell) w = .ok (.dict dict) w := by
  simp [unmarked, h]

theorem isMarked_mark {w : World} {cell dict : Nat} {others : List Value}
    (h : w.tuple cell = .str "kwunpack" :: .dict dict :: others) :
    isMarked (.tuple cell) w = .ok true w := by
  simp [isMarked, h]

/-- the arguments are added to those that are there -/
theorem Argues.run {args : List Node} {vs : List Value} {ds : List Dict} (h : Argues m s args w vs ds w')
    (a : Arguments) :
    evalArguments m s a args w = .ok ⟨a.positional ++ vs, ds.foldl Dict.update a.keywords⟩ w' := by
  induction h generalizing a with
  | nil =>
    rw [List.append_nil]
    rfl
  | value hu hk hq run _ ih =>
    rw [evalArguments_value hu hk hq, bind_run, run]
    dsimp only
    rw [ih, List.append_assoc]
    rfl
  | list run _ ih =>
    simp only [evalArguments, bind_run, run, addUnpacked, get_run, pure_run, ih, List.append_assoc]
  | tuple run _ ih =>
    simp only [evalArguments, bind_run, run, addUnpacked, get_run, pure_run, ih, List.append_assoc]
  | dict run _ ih =>
    simp only [evalArguments, bind_run, run, unmarked, addKeywords, get_run, pure_run, ih, List.foldl_cons]
  | marked run mark _ ih =>
    simp only [evalArguments, bind_run, run, unmarked_mark mark, addKeywords, get_run, pure_run, ih,
      List.foldl_cons]
  | quoted run unmarked _ ih =>
    simp only [evalArguments, bind_run, run, unmarked, ih, ite_run, Bool.false_eq_true, if_false,
      List.append_assoc, List.singleton_append]
  | quotedMark run mark _ ih =>
    simp only [evalArguments, bind_run, run, isMarked_mark mark, ite_run, if_true, unmarked_mark mark,
      addKeywords, get_run, pure_run, ih, List.foldl_cons]

theorem Names.run {keywords : List (String × Node)} {kws : List (String × Value)}
    (h : Names m s keywords w kws w') (hn : ∀ p ∈ keywords, p.1 ≠ "kwunpack") (a : Arguments) :
    evalKeywords m s a keywords w = .ok { a with keywords := a.keywords.putAll kws } w' := by
  induction h generalizing a with
  | nil => rfl
  | cons run _ ih =>
    rw [List.forall_mem_cons] at hn
    simp only [evalKeywords, bind_run, run, if_neg hn.1, pure_run, ih hn.2]
    rfl

/-- a call of a function of a program, once its arguments are evaluated -/
theorem evalCall_run {n : Nat} {callee : Node} {args : List Node} {keywords : List (String × Node)} {cell : Nat}
    {vs : List Value} {ds : List Dict} {kws : List (String × Value)} {w₁ w₂ w₃ : World}
    (hf : (machine n).exec callee s w = .ok (.function cell) w₁) (ha : Argues (machine n) s args w₁ vs ds w₂)
    (hk : Names (machine n) s keywords w₂ kws w₃) (hn : ∀ p ∈ keywords, p.1 ≠ "kwunpack") :
    evalCall (machine n) s callee args keywords w =
      (bindArguments (machine n) s (w₃.function cell).params ⟨vs, merged ds kws⟩ >>=
        (machine n).call (.function cell)) w₃ := by
  unfold evalCall applyCall
  rw [bind_run, evalCallee_value hf rfl]
  dsimp only
  rw [bind_run, ha.run]
  dsimp only
  rw [bind_run, hk.run hn]
  rfl

end

/-! ## signatures -/

/-- plain parameters with distinct names and maybe defaults, and maybe one that collects keyword arguments -/
structure Signature where
  plain : List (String × Option Node)
  collector : Option String
  distinct : (plain.map Prod.fst).Nodup

namespace Signature

def names (σ : Signature) : List String := σ.plain.map Prod.fst

/-- the parameters -/
def params (σ : Signature) : List (Param Node) :=
  σ.plain.map (fun p => .plain p.1 p.2) ++ (σ.collector.map Param.keywords).toList

/-- a number of positional arguments and keyword arguments that a signature accepts: no parameter has both, each
has an argument or a default, and without a collector there is a parameter for each keyword argument -/
structure Accepts (σ : Signature) (count : Nat) (keywords : Dict) : Prop where
  fits : count ≤ σ.plain.length
  once : ∀ name ∈ σ.names.take count, keywords.get? name = none
  supplied : ∀ p ∈ σ.plain.drop count, (keywords.get? p.1).isSome ∨ p.2.isSome
  known : σ.collector = none → ∀ k ∈ keywords.keys, ∃ name ∈ σ.names, k = .str name

/-- the keyword arguments that no plain parameter takes -/
def rest (σ : Signature) (keywords : Dict) : Dict := keywords.without σ.names

end Signature

/-- the argument of a parameter that has no positional one: the keyword argument of its name, or its default
evaluated in the scope of the call -/
def supply (m : Machine) (s : Nat) (keywords : Dict) (p : String × Option Node) : Exec Value :=
  match keywords.get? p.1 with
  | some v => pure v
  | none => evalOption m s p.2

/-! ## how arguments are taken -/

/-- a way to bind arguments takes them alike where no parameter has both a positional and a keyword argument -/
structure Takes (m : Machine) (s : Nat) (bind : Arguments → List (Param Node) → Exec (List Value × Dict)) :
    Prop where
  positional {v : Value} {vs : List Value} {d : Dict} {name : String} (value : Option Node)
      (ps : List (Param Node)) (h : d.get? name = none) : bind ⟨v :: vs, d⟩ (.plain name value :: ps) =
    bind ⟨vs, d⟩ ps >>= fun r => pure (v :: r.1, r.2)
  keyword {v : Value} {d : Dict} {name : String} (value : Option Node) (ps : List (Param Node))
      (h : d.get? name = some v) : bind ⟨[], d⟩ (.plain name value :: ps) =
    bind ⟨[], d.erase (.str name)⟩ ps >>= fun r => pure (v :: r.1, r.2)
  default {d : Dict} {name : String} (e : Node) (ps : List (Param Node)) (h : d.get? name = none) :
    bind ⟨[], d⟩ (.plain name (some e) :: ps) =
      m.exec e s >>= fun v => bind ⟨[], d⟩ ps >>= fun r => pure (v :: r.1, r.2)

section
variable {m : Machine} {s : Nat}

theorem takes_bindCollecting : Takes m s (bindCollecting m s) where
  positional value ps h := rfl
  keyword value ps h := by
    simp only [bindCollecting, h]
  default e ps h := by
    simp only [bindCollecting, h]
    rfl

theorem takes_bindPlain : Takes m s (bindPlain m s) where
  positional value ps h := by
    simp only [bindPlain, h]
  keyword value ps h := by
    simp only [bindPlain, h]
  default e ps h := by
    simp only [bindPlain, h]
    rfl

/-- a keyword argument that was taken does not supply another parameter -/
theorem supply_without {d : Dict} {name : String} {ps : List (String × Option Node)}
    (h : name ∉ ps.map Prod.fst) : ps.mapM (supply m s (d.without [name])) = ps.mapM (supply m s d) := by
  induction ps with
  | nil => rfl
  | cons p ps ih =>
    rw [List.map_cons, List.mem_cons, not_or] at h
    have hp : supply m s (d.without [name]) p = supply m s d p := by
      unfold supply
      rw [d.get?_without (by simpa using Ne.symm h.1)]
    rw [List.mapM_cons, List.mapM_cons, hp, ih h.2]

/-- **Arguments in the order of plain parameters.** The positional arguments come first; the other parameters are
supplied in order; the parameters after them get the keyword arguments that are left. -/
theorem Takes.run {bind : Arguments → List (Param Node) → Exec (List Value × Dict)} (h : Takes m s bind)
    {ps : List (String × Option Node)} (tail : List (Param Node)) (hn : (ps.map Prod.fst).Nodup)
    {vs : List Value} {d : Dict} (hd : d.Distinct) (hc : vs.length ≤ ps.length)
    (ho : ∀ name ∈ (ps.map Prod.fst).take vs.length, d.get? name = none)
    (hs : ∀ p ∈ ps.drop vs.length, (d.get? p.1).isSome ∨ p.2.isSome) :
    bind ⟨vs, d⟩ (ps.map (fun p => .plain p.1 p.2) ++ tail) =
      (ps.drop vs.length).mapM (supply m s d) >>= fun more =>
        bind ⟨[], d.without (ps.map Prod.fst)⟩ tail >>= fun r => pure (vs ++ more ++ r.1, r.2) := by
  induction ps generalizing vs d with
  | nil =>
    obtain rfl : vs = [] := List.eq_nil_of_length_eq_zero (Nat.le_zero.mp hc)
    simp [Dict.without_nil]
  | cons p ps ih =>
    obtain ⟨name, value⟩ := p
    rw [List.map_cons, List.nodup_cons] at hn
    cases vs with
    | cons v vs =>
      simp only [List.map_cons, List.length_cons, List.take_succ_cons, List.forall_mem_cons] at ho
      have hr := ih hn.2 hd (Nat.le_of_succ_le_succ hc) ho.2 hs
      rw [List.map_cons, List.cons_append, h.positional value _ ho.1, hr, List.map_cons,
        Dict.without_cons_of_none ho.1]
      simp
    | nil =>
      rw [List.length_nil, List.drop_zero, List.forall_mem_cons] at hs
      have hempty : ∀ d' : Dict, ∀ n ∈ (ps.map Prod.fst).take ([] : List Value).length, d'.get? n = none :=
        fun _ _ hm => by simp at hm
      rw [List.map_cons, List.cons_append, List.length_nil, List.drop_zero, List.mapM_cons, List.map_cons]
      cases hg : d.get? name with
      | some v =>
        have hrest : ∀ p ∈ ps.drop ([] : List Value).length,
            ((d.without [name]).get? p.1).isSome ∨ p.2.isSome := by
          intro p hp
          have hmem : p.1 ∈ ps.map Prod.fst := List.mem_map_of_mem hp
          have hne : p.1 ∉ [name] := fun hm => hn.1 (List.mem_singleton.mp hm ▸ hmem)
          rw [d.get?_without hne]
          exact hs.2 p hp
        have hr := ih hn.2 (hd.without [name]) (Nat.zero_le _) (hempty _) hrest
        have hv : supply m s d (name, value) = pure v := by
          simp only [supply, hg]
        rw [h.keyword value _ hg, hd.erase_eq, hr, List.length_nil, List.drop_zero, supply_without hn.1,
          Dict.without_cons, hv]
        simp
      | none =>
        obtain ⟨e, rfl⟩ := Option.isSome_iff_exists.mp (hs.1.resolve_left (by simp [hg]))
        have hr := ih hn.2 hd (Nat.zero_le _) (hempty d) hs.2
        have hv : supply m s d (name, some e) = m.exec e s := by
          simp only [supply, hg, evalOption]
        rw [h.default e _ hg, hr, List.length_nil, List.drop_zero, Dict.without_cons_of_none hg, hv]
        simp

end

namespace Signature

variable (σ : Signature)

/-! ## the order of the parameters -/

theorem params_any (q : Param Node → Bool) (hq : ∀ name value, q (.plain name value) = false) :
    σ.params.any q = (σ.collector.map fun name => q (.keywords name)).any id := by
  have hplain : (σ.plain.map fun p => Param.plain p.1 p.2).any q = false := by
    simp [hq]
  rw [params, List.any_append, hplain, Bool.false_or]
  cases σ.collector <;> simp

theorem fixedNames_params : fixedNames σ.params = σ.names := by
  rw [params, fixedNames_append]
  cases σ.collector <;> exact List.append_nil _

theorem restName_params : restName none σ.params = none := by
  rw [params, restName_append]
  cases σ.collector <;> rfl

theorem keywordsName_params : keywordsName none σ.params = σ.collector := by
  rw [params, keywordsName_append]
  cases σ.collector <;> rfl

/-! ## arguments in the order of the parameters -/

/-- the arguments of the parameters after the positional ones -/
def supplied (m : Machine) (s : Nat) (keywords : Dict) (count : Nat) : Exec (List Value) :=
  (σ.plain.drop count).mapM (supply m s keywords)

/-- the parameter that collects keyword arguments, bound to a dictionary -/
def collected (cell : Nat) : List (String × Value) := σ.collector.toList.map fun name => (name, .dict cell)

/-- the state with a dictionary for the keyword arguments that are left, if a parameter collects them -/
def gather (keywords : Dict) (w : World) : World :=
  if σ.collector.isSome then { w with dicts := w.dicts.push (σ.rest keywords) } else w

theorem gather_function (keywords : Dict) (w : World) (cell : Nat) :
    (σ.gather keywords w).function cell = w.function cell := by
  unfold gather
  split <;> rfl

theorem gather_scope (keywords : Dict) (w : World) (cell : Nat) :
    (σ.gather keywords w).scope cell = w.scope cell := by
  unfold gather
  split <;> rfl

def collect (keywords : Dict) : Exec (List Value) :=
  modifyGet fun w => ((σ.collected w.dicts.size).map Prod.snd, σ.gather keywords w)

theorem rest_empty {keywords : Dict} {count : Nat} (h : σ.Accepts count keywords) (hc : σ.collector = none) :
    σ.rest keywords = .empty := Dict.without_eq_empty (h.known hc)

/-- **The arguments in the order of the parameters,** and what is left of the keyword arguments in a dictionary. -/
theorem bindArguments_run {m : Machine} {s : Nat} {vs : List Value} {keywords : Dict} (hd : keywords.Distinct)
    (h : σ.Accepts vs.length keywords) :
    bindArguments m s σ.params ⟨vs, keywords⟩ =
      σ.supplied m s keywords vs.length >>= fun more =>
        σ.collect keywords >>= fun rest => pure (vs ++ more ++ rest) := by
  have hr : σ.params.any Param.isReceiver = false := by
    rw [params_any _ _ fun _ _ => rfl]
    cases σ.collector <;> rfl
  have hc : σ.params.any Param.isCollector = σ.collector.isSome := by
    rw [params_any _ _ fun _ _ => rfl]
    cases σ.collector <;> rfl
  have htakes : ∀ {bind}, Takes m s bind → bind ⟨vs, keywords⟩ σ.params =
      σ.supplied m s keywords vs.length >>= fun more =>
        bind ⟨[], σ.rest keywords⟩ (σ.collector.map Param.keywords).toList >>= fun r =>
          pure (vs ++ more ++ r.1, r.2) :=
    fun ht => ht.run _ σ.distinct hd h.fits h.once h.supplied
  unfold bindArguments
  rw [hr, hc, if_neg Bool.false_ne_true]
  dsimp only
  cases hk : σ.collector with
  | none =>
    have hempty := σ.rest_empty h hk
    rw [hk] at htakes
    rw [Option.isSome_none, if_neg Bool.false_ne_true, htakes takes_bindPlain, bind_assoc]
    refine congrArg _ (funext fun more => funext fun w => ?_)
    simp [bindPlain, hempty, collect, collected, gather, hk, Dict.empty, modifyGet_run]
  | some name =>
    rw [hk] at htakes
    rw [Option.isSome_some, if_pos rfl, htakes takes_bindCollecting, bind_assoc]
    refine congrArg _ (funext fun more => funext fun w => ?_)
    simp [bindCollecting, collect, collected, gather, hk, Dict.empty, modifyGet_run, newDict]

/-! ## the scope of the call -/

/-- the scope of a call whose arguments are in order. The arguments must have a text, unless there is no plain
parameter. -/
theorem callScope_run {c : Closure} (hc : c.params = σ.params) {given : List Value}
    (hl : given.length = σ.names.length) (cell : Nat) (w : World) :
    callScope c (given ++ (σ.collected cell).map Prod.snd) w =
      if σ.plain.isEmpty || (given ++ (σ.collected cell).map Prod.snd).all w.showable then
        .ok ((w.scope c.scope).putAll (σ.names.zip given ++ σ.collected cell)) w
      else .error (.fault .tooManyDigits) w := by
  have hn : given.length = (fixedNames c.params).length := by
    rw [hc, fixedNames_params, hl]
  rw [callScope_append hn, hc, fixedNames_params, restName_params, keywordsName_params, names, List.isEmpty_map,
    Scope.putAll_append]
  unfold collected
  cases σ.collector <;> rfl

/-- what is found in the scope of a call -/
theorem find?_bound {given : List Value} (hl : given.length = σ.names.length) (cell : Nat) (base : Scope)
    (name : String) :
    (base.putAll (σ.names.zip given ++ σ.collected cell)).find? name =
      if σ.collector = some name then some (.dict cell)
      else ((σ.names.zip given).lookup name).or (base.find? name) := by
  have hn : ((σ.names.zip given).map Prod.fst).Nodup := by
    rw [List.map_fst_zip (Nat.le_of_eq hl.symm)]
    exact σ.distinct
  rw [Scope.putAll_append, ← base.find?_putAll hn]
  unfold collected
  cases σ.collector with
  | none => rfl
  | some kw =>
    refine (Scope.find?_insert _ kw name (.dict cell)).trans ?_
    simp only [Option.some.injEq, eq_comm]

end Signature

/-! ## functions are still there -/

theorem World.Makes.function {w w' : World} (h : w.Makes w') {cell : Nat} (hc : cell < w.functions.size) :
    w'.function cell = w.function cell := h.functions.getD hc _ _

theorem exec_makes {n s : Nat} {node : Node} {w u : World} {v : Value}
    (h : (machine n).exec node s w = .ok v u) : w.Makes u := by
  have hm := machine_coupled untouchedCoupling_total (Nat.le_refl n)
  have hx : ((machine n).exec node s).Spares (fun _ => False) (some s) := hm.exec (l := false) trivial s
  exact (hx w u (h ▸ .value v u)).makes

theorem Argues.makes {n s : Nat} {args : List Node} {vs : List Value} {ds : List Dict} {w u : World}
    (h : Argues (machine n) s args w vs ds u) : w.Makes u := by
  induction h with
  | nil => exact .of_eq rfl rfl
  | value _ _ _ run _ ih => exact (exec_makes run).trans ih
  | list run _ ih | tuple run _ ih | dict run _ ih => exact (exec_makes run).trans ih
  | marked run _ _ ih | quoted run _ _ ih | quotedMark run _ _ ih => exact (exec_makes run).trans ih

theorem supply_ok {n s : Nat} {keywords : Dict} {ps : List (String × Option Node)} {w u : World}
    {more : List Value} (h : ps.mapM (supply (machine n) s keywords) w = .ok more u) :
    more.length = ps.length ∧ w.Makes u := by
  induction ps generalizing w more with
  | nil =>
    cases h
    exact ⟨rfl, .of_eq rfl rfl⟩
  | cons p ps ih =>
    rw [List.mapM_cons] at h
    obtain ⟨v, w₁, hv, h⟩ := bind_ok h
    obtain ⟨vs, w₂, hvs, h⟩ := bind_ok h
    cases h
    obtain ⟨hl, hm⟩ := ih hvs
    refine ⟨by rw [List.length_cons, hl, List.length_cons], World.Makes.trans ?_ hm⟩
    cases hg : keywords.get? p.1 with
    | some u =>
      rw [supply, hg] at hv
      cases hv
      exact .of_eq rfl rfl
    | none =>
      rw [supply, hg] at hv
      cases hd : p.2 with
      | none =>
        rw [hd] at hv
        cases hv
        exact .of_eq rfl rfl
      | some e =>
        rw [hd] at hv
        exact exec_makes hv

theorem World.lt_functions_size {w : World} {cell : Nat} (h : (w.function cell).params ≠ []) :
    cell < w.functions.size := by
  refine Nat.lt_of_not_le fun hc => h ?_
  simp [World.function, Array.getD_eq_getD_getElem?, Array.getElem?_eq_none hc]

theorem Signature.function_makes {σ : Signature} (h : σ.plain ≠ []) {w w' : World} {cell : Nat}
    (hp : (w.function cell).params = σ.params) (hm : w.Makes w') : w'.function cell = w.function cell := by
  refine hm.function (World.lt_functions_size fun hn => h ?_)
  rw [hn] at hp
  exact List.map_eq_nil_iff.mp (List.append_eq_nil_iff.mp hp.symm).1

/-- a function is the same after its defaults were evaluated -/
theorem function_supplied {n s count cell : Nat} {σ : Signature} {keywords : Dict} {w u : World}
    {more : List Value} (hp : (w.function cell).params = σ.params)
    (h : σ.supplied (machine n) s keywords count w = .ok more u) : u.function cell = w.function cell := by
  by_cases hplain : σ.plain = []
  · -- no default is evaluated
    rw [Signature.supplied, hplain, List.drop_nil] at h
    cases h
    rfl
  · exact Signature.function_makes hplain hp (supply_ok h).2

/-! ## calls -/

/-- **What an accepted call binds.** The parameters that have no positional argument are supplied in order; what
one of their defaults ends with, the call ends with. Then the body of the function runs in a new scope: over the
variables that the scope of the function has now, each plain parameter is bound to its argument, and the
parameter that collects keyword arguments to a new dictionary of those that are left, in order. Only if an
argument has no text, because it holds a number of too many digits, and there is a plain parameter, the call
fails instead. -/
theorem call_binds {n s cell : Nat} {callee : Node} {args : List Node} {keywords : List (String × Node)}
    {vs : List Value} {ds : List Dict} {kws : List (String × Value)} {σ : Signature} {w w₁ w₂ w₃ : World}
    (hf : (machine (n + 1)).exec callee s w = .ok (.function cell) w₁)
    (ha : Argues (machine (n + 1)) s args w₁ vs ds w₂) (hk : Names (machine (n + 1)) s keywords w₂ kws w₃)
    (hn : ∀ p ∈ keywords, p.1 ≠ "kwunpack") (hp : (w₃.function cell).params = σ.params)
    (hσ : σ.Accepts vs.length (merged ds kws)) :
    (∀ signal u, σ.supplied (machine (n + 1)) s (merged ds kws) vs.length w₃ = .error signal u →
      (machine (n + 2)).exec (.call callee args keywords) s w = .error signal u) ∧
    ∀ more u, σ.supplied (machine (n + 1)) s (merged ds kws) vs.length w₃ = .ok more u →
      let u' := σ.gather (merged ds kws) u
      let base := u'.scope (w₃.function cell).scope
      let scope := base.putAll (σ.names.zip (vs ++ more) ++ σ.collected u.dicts.size)
      (vs ++ more).length = σ.names.length ∧
      (∀ name, scope.find? name = if σ.collector = some name then some (.dict u.dicts.size)
        else ((σ.names.zip (vs ++ more)).lookup name).or (base.find? name)) ∧
      (σ.collector.isSome → u'.dict u.dicts.size = (merged ds kws).without σ.names) ∧
      (machine (n + 2)).exec (.call callee args keywords) s w =
        if σ.plain.isEmpty || (vs ++ more ++ (σ.collected u.dicts.size).map Prod.snd).all u'.showable then
          leaving u'.active (runBlock (machine n) u'.scopes.size .null (w₃.function cell).body)
            (u'.enter scope)
        else .error (.fault .tooManyDigits) u' := by
  have hcall : (machine (n + 2)).exec (.call callee args keywords) s w =
      (bindArguments (machine (n + 1)) s σ.params ⟨vs, merged ds kws⟩ >>=
        callFunction (machine n) cell) w₃ := by
    rw [← hp]
    exact evalCall_run hf ha hk hn
  rw [σ.bindArguments_run (merged_distinct ds kws) hσ, bind_run, bind_run] at hcall
  constructor
  · intro signal u hs
    rw [hcall, hs]
  · intro more u hs u' base scope
    rw [hs] at hcall
    obtain ⟨hlength, hmakes⟩ := supply_ok hs
    have hl : (vs ++ more).length = σ.names.length := by
      have hfits := hσ.fits
      rw [List.length_append, hlength, List.length_drop, Signature.names, List.length_map]
      omega
    have hfunction : u'.function cell = w₃.function cell := by
      rw [σ.gather_function]
      exact function_supplied hp hs
    have hscope := σ.callScope_run (hfunction ▸ hp) hl u.dicts.size u'
    refine ⟨hl, σ.find?_bound hl _ base, fun hc => ?_, hcall.trans ?_⟩
    · simp [u', Signature.gather, hc, World.dict, Signature.rest]
    · show callFunction (machine n) cell (vs ++ more ++ (σ.collected u.dicts.size).map Prod.snd) u' = _
      split
      · rename_i hshown
        rw [if_pos hshown] at hscope
        rw [callFunction_run hscope, hfunction]
      · rename_i hshown
        rw [if_neg hshown] at hscope
        simp only [callFunction, bind_run, get_run, hscope]

theorem Signature.sample_distinct :
    (([("a", none), ("b", some (.str "q"))] : List (String × Option Node)).map Prod.fst).Nodup := by decide

/-- the parameters `a, b = "q", **k` -/
def Signature.sample : Signature := ⟨_, some "k", Signature.sample_distinct⟩

/-- a state with a function `f` of these parameters that gives `b`, and the dictionaries that were made -/
def World.sampleCall (dicts : Array Dict) : World :=
  { (default : World) with
    scopes := #[⟨[("f", .function 0)], none⟩]
    functions := #[⟨Signature.sample.params, [.var "b"], 0⟩]
    dicts := dicts }

/-- the dictionary that binds `c` to `"r"` -/
def Dict.sample : Dict := ⟨[(.str "c", .str "r")]⟩

/-- the call `f("p", **d)` for that dictionary: a default is used, and `k` is a new dictionary with `c` -/
theorem call_binds_sample :
    (machine 3).exec (.call (.var "f")
        [.str "p", .keywordUnpack (.dict [(.str "c", .str "r")])] []) 0 (World.sampleCall #[]) =
      .ok (.str "q") { World.sampleCall #[.sample, .sample] with
        scopes := #[⟨[("f", .function 0)], none⟩,
          ⟨[("k", .dict 1), ("b", .str "q"), ("a", .str "p"), ("f", .function 0)], none⟩] } := by
  have hf : (machine 2).exec (.var "f") 0 (World.sampleCall #[]) =
      .ok (.function 0) (World.sampleCall #[]) := rfl
  have hd : (machine 2).exec (.dict [(.str "c", .str "r")]) 0 (World.sampleCall #[]) =
      .ok (.dict 0) (World.sampleCall #[.sample]) := rfl
  have ha : Argues (machine 2) 0 [.str "p", .keywordUnpack (.dict [(.str "c", .str "r")])]
      (World.sampleCall #[]) [.str "p"] [.sample] (World.sampleCall #[.sample]) :=
    .value nofun nofun nofun rfl (.dict hd .nil)
  have hσ : Signature.sample.Accepts 1 (merged [.sample] []) :=
    ⟨by decide, by decide, by decide, nofun⟩
  have hp : ((World.sampleCall #[.sample]).function 0).params = Signature.sample.params := rfl
  have h := call_binds hf ha .nil nofun hp hσ
  exact (h.2 [.str "q"] (World.sampleCall #[.sample]) rfl).2.2.2.trans rfl

end BraceScript
