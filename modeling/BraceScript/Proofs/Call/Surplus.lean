import BraceScript.Proofs.Call.CallArguments

/-!
# More arguments than parameters

A call of a function with plain parameters only gives each parameter the keyword argument of its name, or else
the next positional argument. The positional arguments that are left then are dropped: the function gets one
argument for each parameter, and never sees that there were more. Keyword arguments that are left are an error.

* `vacant`          the parameters that are left for positional arguments
* `dealt`           one argument for each parameter
* `bindPlain_dealt`     what the parameters get
* `bindPlain_leaves`    whatever happens on the way, the keyword arguments that name no parameter are left
* `call_surplus`    what a call with more arguments than parameters does
-/

namespace BraceScript

open Exec

/-- the parameters that are left for positional arguments: a keyword argument takes the first parameter of its
name -/
def vacant (d : Dict) : List String → List String
  | [] => []
  | name :: names =>
    if (d.get? name).isSome then vacant (d.without [name]) names else name :: vacant d names

/-- one argument for each parameter: the keyword argument of its name, or the next positional argument -/
def dealt (d : Dict) : List String → List Value → List Value
  | [], _ => []
  | name :: names, vs =>
    match d.get? name with
    | some v => v :: dealt (d.without [name]) names vs
    | none => vs.take 1 ++ dealt d names (vs.drop 1)

section
variable {d : Dict} {name : String} {names : List String} {vs : List Value} {v : Value}

theorem vacant_taken (h : d.get? name = some v) :
    vacant d (name :: names) = vacant (d.without [name]) names := by
  simp [vacant, h]

theorem vacant_free (h : d.get? name = none) : vacant d (name :: names) = name :: vacant d names := by
  simp [vacant, h]

theorem dealt_taken (h : d.get? name = some v) :
    dealt d (name :: names) vs = v :: dealt (d.without [name]) names vs := by
  simp [dealt, h]

theorem dealt_free (h : d.get? name = none) :
    dealt d (name :: names) (v :: vs) = v :: dealt d names vs := by
  simp [dealt, h]

/-- a keyword argument takes one parameter, unless it names none -/
theorem length_vacant (hd : d.Distinct) (names : List String) :
    names.length + (d.without names).size = (vacant d names).length + d.size := by
  induction names generalizing d with
  | nil => rw [Dict.without_nil]; rfl
  | cons name names ih =>
    cases hg : d.get? name with
    | some v =>
      have hr := ih (hd.without [name])
      have hsize := hd.size_without hg
      rw [Dict.without_cons] at hr
      rw [vacant_taken hg, List.length_cons]
      omega
    | none =>
      have hr := ih hd
      rw [vacant_free hg, Dict.without_cons_of_none hg, List.length_cons, List.length_cons]
      omega

theorem length_dealt (h : (vacant d names).length ≤ vs.length) : (dealt d names vs).length = names.length := by
  induction names generalizing d vs with
  | nil => rfl
  | cons name names ih =>
    cases hg : d.get? name with
    | some v =>
      rw [vacant_taken hg] at h
      rw [dealt_taken hg, List.length_cons, List.length_cons, ih h]
    | none =>
      rw [vacant_free hg] at h
      cases vs with
      | nil => cases h
      | cons v vs => rw [dealt_free hg, List.length_cons, List.length_cons, ih (Nat.le_of_succ_le_succ h)]

/-- positional arguments beyond the parameters that are left for them make no difference -/
theorem dealt_take (h : (vacant d names).length ≤ vs.length) :
    dealt d names vs = dealt d names (vs.take (vacant d names).length) := by
  induction names generalizing d vs with
  | nil => rfl
  | cons name names ih =>
    cases hg : d.get? name with
    | some v =>
      rw [vacant_taken hg] at h ⊢
      rw [dealt_taken hg, dealt_taken hg, ← ih h]
    | none =>
      rw [vacant_free hg] at h ⊢
      cases vs with
      | nil => cases h
      | cons v vs =>
        rw [List.length_cons, List.take_succ_cons, dealt_free hg, dealt_free hg,
          ← ih (Nat.le_of_succ_le_succ h)]

/-- a parameter has the keyword argument of its name, or a positional argument by its place among the parameters
that are left for these -/
theorem lookup_dealt (hn : names.Nodup) (h : (vacant d names).length ≤ vs.length) (hm : name ∈ names) :
    (names.zip (dealt d names vs)).lookup name =
      (d.get? name).or (((vacant d names).zip vs).lookup name) := by
  induction names generalizing d vs with
  | nil => cases hm
  | cons k names ih =>
    rw [List.nodup_cons] at hn
    cases hg : d.get? k with
    | some v =>
      rw [vacant_taken hg] at h ⊢
      rw [dealt_taken hg, List.zip_cons_cons, lookup_cons_eq]
      by_cases hk : name = k
      · rw [if_pos hk, hk, hg]
        rfl
      · rw [if_neg hk, ih hn.2 h ((List.mem_cons.mp hm).resolve_left hk), d.get?_without (by simpa using hk)]
    | none =>
      rw [vacant_free hg] at h ⊢
      cases vs with
      | nil => cases h
      | cons v vs =>
        rw [dealt_free hg, List.zip_cons_cons, List.zip_cons_cons, lookup_cons_eq, lookup_cons_eq]
        by_cases hk : name = k
        · rw [if_pos hk, if_pos hk, hk, hg]
          rfl
        · rw [if_neg hk, if_neg hk]
          exact ih hn.2 (Nat.le_of_succ_le_succ h) ((List.mem_cons.mp hm).resolve_left hk)

end

/-! ## plain parameters -/

section
variable {m : Machine} {s : Nat} {ps : List (String × Option Node)} {vs : List Value} {d : Dict}

/-- with a positional argument for each parameter that is left for one, no default is evaluated -/
theorem bindPlain_dealt (hd : d.Distinct) (h : (vacant d (ps.map Prod.fst)).length ≤ vs.length) :
    bindPlain m s ⟨vs, d⟩ (ps.map fun p => .plain p.1 p.2) =
      pure (dealt d (ps.map Prod.fst) vs, d.without (ps.map Prod.fst)) := by
  induction ps generalizing vs d with
  | nil =>
    show pure ([], d) = (pure ([], d.without []) : Exec _)
    rw [Dict.without_nil]
  | cons p ps ih =>
    obtain ⟨name, value⟩ := p
    rw [List.map_cons] at h
    rw [List.map_cons, List.map_cons]
    cases hg : d.get? name with
    | some v =>
      rw [vacant_taken hg] at h
      simp only [bindPlain, hg, hd.erase_eq]
      rw [ih (hd.without [name]) h, Dict.without_cons, dealt_taken hg, pure_bind]
    | none =>
      rw [vacant_free hg] at h
      cases vs with
      | nil => cases h
      | cons v vs =>
        simp only [bindPlain, hg]
        rw [ih hd (Nat.le_of_succ_le_succ h), Dict.without_cons_of_none hg, dealt_free hg, pure_bind]

/-- how plain parameters are supplied: some keyword arguments are left, or a parameter has neither an argument nor
a default, or the default of a parameter ends with a signal -/
inductive Leaves (m : Machine) (s : Nat) (ps : List (String × Option Node)) (left : Dict) :
    EStateM.Result Signal World (List Value × Dict) → Prop
  | supplied (given : List Value) (u : World) : Leaves m s ps left (.ok (given, left) u)
  | missing (name : String) (u : World) : Leaves m s ps left (.error (.fault (.missingArgument name)) u)
  | default {p e signal u u'} (hp : p ∈ ps) (he : p.2 = some e) (run : m.exec e s u' = .error signal u) :
    Leaves m s ps left (.error signal u)

theorem Leaves.cons {left : Dict} {x : Exec (List Value × Dict)} {w : World}
    (h : Leaves m s ps left (x w)) (p : String × Option Node) (v : Value) :
    Leaves m s (p :: ps) left ((x >>= fun r => pure (v :: r.1, r.2)) w) := by
  rw [bind_run]
  generalize x w = r at h
  cases h with
  | supplied given u => exact .supplied (v :: given) u
  | missing name u => exact .missing name u
  | default hp he run => exact .default (List.mem_cons_of_mem p hp) he run

/-- whatever happens on the way, the keyword arguments that name no parameter are left -/
theorem bindPlain_leaves (hd : d.Distinct) (w : World) :
    Leaves m s ps (d.without (ps.map Prod.fst)) (bindPlain m s ⟨vs, d⟩ (ps.map fun p => .plain p.1 p.2) w) := by
  induction ps generalizing vs d w with
  | nil =>
    rw [List.map_nil, List.map_nil, Dict.without_nil]
    exact .supplied [] w
  | cons p ps ih =>
    obtain ⟨name, value⟩ := p
    rw [List.map_cons, List.map_cons]
    cases hg : d.get? name with
    | some v =>
      simp only [bindPlain, hg, hd.erase_eq]
      rw [← Dict.without_cons]
      exact (ih (hd.without [name]) w).cons _ v
    | none =>
      rw [Dict.without_cons_of_none hg]
      cases vs with
      | cons v vs =>
        simp only [bindPlain, hg]
        exact (ih hd w).cons _ v
      | nil =>
        simp only [bindPlain, hg]
        cases value with
        | none => exact .missing name w
        | some e =>
          rw [bind_run, defaultArgument]
          cases run : m.exec e s w with
          | ok v u => exact (ih hd u).cons _ v
          | error signal u => exact .default List.mem_cons_self rfl run

/-! ## what is left -/

/-- plain parameters are supplied first, and then no keyword argument may be left -/
theorem bindArguments_plain (m : Machine) (s : Nat) (ps : List (String × Option Node)) (a : Arguments) :
    bindArguments m s (ps.map fun p => .plain p.1 p.2) a =
      bindPlain m s a (ps.map fun p => .plain p.1 p.2) >>= fun r =>
        if r.2.entries.isEmpty then pure r.1
        else ofExcept (keywordNames 0 r.2.keys) >>= fun names =>
          fail (.unexpectedKeywords (commaSeparated names)) := by
  have hr : (ps.map fun p => Param.plain p.1 p.2).any Param.isReceiver = false := by
    simp [Param.isReceiver]
  have hc : (ps.map fun p => Param.plain p.1 p.2).any Param.isCollector = false := by
    simp [Param.isCollector]
  unfold bindArguments
  rw [hr, hc, if_neg Bool.false_ne_true, if_neg Bool.false_ne_true]

theorem keywordNames_error {n : Nat} {keys : List Value} {f : Fault} (h : keywordNames n keys = .error f) :
    f.family = .wrongType := by
  induction keys generalizing n with
  | nil => cases h
  | cons k keys ih =>
    cases k with
    | str name =>
      rw [keywordNames] at h
      cases hk : keywordNames (n + 1) keys with
      | ok names => rw [hk] at h; cases h
      | error f' =>
        rw [hk] at h
        cases h
        exact ih hk
    | _ => cases h; rfl

theorem bindArguments_left {w u : World} {given : List Value} {left : Dict}
    (h : bindPlain m s ⟨vs, d⟩ (ps.map fun p => .plain p.1 p.2) w = .ok (given, left) u)
    (hl : left.entries ≠ []) :
    ∃ f : Fault, f.family = .wrongType ∧
      bindArguments m s (ps.map fun p => .plain p.1 p.2) ⟨vs, d⟩ w = .error (.fault f) u := by
  have he : ¬ left.entries.isEmpty = true := by simpa using hl
  rw [bindArguments_plain, bind_run, h]
  dsimp only
  rw [if_neg he]
  cases hk : keywordNames 0 left.keys with
  | ok names => exact ⟨_, rfl, rfl⟩
  | error f => exact ⟨f, keywordNames_error hk, rfl⟩

theorem bindArguments_unknown (hd : d.Distinct) (hl : (d.without (ps.map Prod.fst)).entries ≠ []) (w : World) :
    ∃ signal u, bindArguments m s (ps.map fun p => .plain p.1 p.2) ⟨vs, d⟩ w = .error signal u ∧
      ((∃ f : Fault, signal = .fault f ∧ f.family = .wrongType) ∨
        vs.length < (vacant d (ps.map Prod.fst)).length ∧
          ∃ p ∈ ps, ∃ e u', p.2 = some e ∧ m.exec e s u' = .error signal u) := by
  by_cases hv : (vacant d (ps.map Prod.fst)).length ≤ vs.length
  · have hb : bindPlain m s ⟨vs, d⟩ (ps.map fun p => .plain p.1 p.2) w =
        .ok (dealt d (ps.map Prod.fst) vs, d.without (ps.map Prod.fst)) w := by
      rw [bindPlain_dealt hd hv, pure_run]
    obtain ⟨f, hf, hr⟩ := bindArguments_left hb hl
    exact ⟨_, w, hr, .inl ⟨f, rfl, hf⟩⟩
  · have hb : Leaves m s ps (d.without (ps.map Prod.fst))
        (bindPlain m s ⟨vs, d⟩ (ps.map fun p => .plain p.1 p.2) w) := bindPlain_leaves hd w
    generalize hr : bindPlain m s ⟨vs, d⟩ (ps.map fun p => .plain p.1 p.2) w = r at hb
    cases hb with
    | supplied given u =>
      obtain ⟨f, hf, hr⟩ := bindArguments_left hr hl
      exact ⟨_, u, hr, .inl ⟨f, rfl, hf⟩⟩
    | missing name u =>
      refine ⟨_, u, ?_, .inl ⟨.missingArgument name, rfl, rfl⟩⟩
      rw [bindArguments_plain, bind_run, hr]
    | default hp he run =>
      refine ⟨_, _, ?_, .inr ⟨Nat.lt_of_not_le hv, _, hp, _, _, he, run⟩⟩
      rw [bindArguments_plain, bind_run, hr]

theorem callScope_plain {c : Closure} (hc : c.params = ps.map fun p => .plain p.1 p.2) {given : List Value}
    (hl : given.length = (ps.map Prod.fst).length) (w : World) :
    callScope c given w =
      if (ps.map Prod.fst).isEmpty || given.all w.showable then
        .ok ((w.scope c.scope).putAll ((ps.map Prod.fst).zip given)) w
      else .error (.fault .tooManyDigits) w := by
  have hfixed : fixedNames c.params = ps.map Prod.fst := by
    rw [hc, ← List.append_nil (ps.map _), fixedNames_append]
    exact List.append_nil _
  have hrest : restName none c.params = none := by
    rw [hc, ← List.append_nil (ps.map _), restName_append]
    rfl
  have hkeywords : keywordsName none c.params = none := by
    rw [hc, ← List.append_nil (ps.map _), keywordsName_append]
    rfl
  rw [← List.append_nil given, callScope_append (hfixed ▸ hl), hfixed, hrest, hkeywords, List.append_nil]
  rfl

end

/-! ## calls -/

/-- **What a call with more arguments than parameters does.** If a keyword argument names no parameter, the call
ends before the function runs: with a type error, unless parameters were left over and a default ended with
something else. Otherwise there are more positional arguments than parameters left for them. No error is raised:
the body runs in a new scope in which each parameter has the keyword argument of its name or the next positional
argument, just as if the positional arguments after these had not been there. Only if an argument that a parameter
gets has no text, because it holds a number of too many digits, the call fails. -/
theorem call_surplus {n s cell : Nat} {callee : Node} {args : List Node} {keywords : List (String × Node)}
    {vs : List Value} {d : Dict} {ps : List (String × Option Node)} {w w' : World}
    (he : Evaluates (machine (n + 1)) s callee args keywords w (.function cell) vs d w')
    (hp : (w'.function cell).params = ps.map fun p => .plain p.1 p.2)
    (hs : ps.length < vs.length + d.size) :
    let names := ps.map Prod.fst
    let given := dealt d names vs
    let base := w'.scope (w'.function cell).scope
    let scope := base.putAll (names.zip given)
    ((∃ k ∈ d.keys, ∀ name ∈ names, k ≠ .str name) →
      ∃ signal u, (machine (n + 2)).exec (.call callee args keywords) s w = .error signal u ∧
        bindArguments (machine (n + 1)) s (w'.function cell).params ⟨vs, d⟩ w' = .error signal u ∧
        ((∃ f : Fault, signal = .fault f ∧ f.family = .wrongType) ∨
          vs.length < (vacant d names).length ∧
            ∃ p ∈ ps, ∃ e u', p.2 = some e ∧ (machine (n + 1)).exec e s u' = .error signal u)) ∧
    ((∀ k ∈ d.keys, ∃ name ∈ names, k = .str name) →
      (vacant d names).length < vs.length ∧
      given = dealt d names (vs.take (vacant d names).length) ∧
      (names.Nodup → ∀ name, scope.find? name =
        if name ∈ names then (d.get? name).or (((vacant d names).zip vs).lookup name) else base.find? name) ∧
      (machine (n + 2)).exec (.call callee args keywords) s w =
        if names.isEmpty || given.all w'.showable then
          leaving w'.active (runBlock (machine n) w'.scopes.size .null (w'.function cell).body)
            (w'.enter scope)
        else .error (.fault .tooManyDigits) w') := by
  intro names given base scope
  have hd := he.distinct
  have hcall := he.exec_function
  have hcount := length_vacant hd names
  have hlength : names.length = ps.length := List.length_map Prod.fst
  rw [hp] at hcall ⊢
  constructor
  · rintro ⟨k, hk, hnone⟩
    obtain ⟨signal, u, hr, hsignal⟩ := bindArguments_unknown hd (Dict.without_ne_nil hk hnone) w'
    refine ⟨signal, u, ?_, hr, hsignal⟩
    rw [hcall, bind_run, hr]
  · intro hknown
    have hempty : d.without names = .empty := Dict.without_eq_empty hknown
    have hvacant : (vacant d names).length < vs.length := by
      rw [hempty] at hcount
      have h0 : Dict.empty.size = 0 := rfl
      omega
    have hbind : bindArguments (machine (n + 1)) s (ps.map fun p => .plain p.1 p.2) ⟨vs, d⟩ w' =
        .ok given w' := by
      rw [bindArguments_plain, bindPlain_dealt hd (Nat.le_of_lt hvacant), bind_run, hempty]
      rfl
    have hgiven : given.length = names.length := length_dealt (Nat.le_of_lt hvacant)
    refine ⟨hvacant, dealt_take (Nat.le_of_lt hvacant), fun hn name => ?_, ?_⟩
    · rw [base.find?_putAll_zip hn hgiven]
      split
      · rename_i hm
        exact lookup_dealt hn (Nat.le_of_lt hvacant) hm
      · rfl
    · rw [hcall, bind_run, hbind]
      exact callFunction_ite (callScope_plain hp hgiven w')

/-- a state with a function `f` of two parameters `a` and `b` that gives `b` -/
def World.sampleSurplus : World :=
  { (default : World) with
    scopes := #[⟨[("f", .function 0)], none⟩]
    functions := #[⟨[.plain "a" none, .plain "b" none], [.var "b"], 0⟩] }

/-- the call `f("p", "q", a = "r")`: `a` is `"r"` and `b` is `"p"`, and `"q"` is dropped -/
theorem call_surplus_sample :
    (machine 3).exec (.call (.var "f") [.str "p", .str "q"] [("a", .str "r")]) 0 World.sampleSurplus =
      .ok (.str "p") { World.sampleSurplus with
        scopes := #[⟨[("f", .function 0)], none⟩,
          ⟨[("b", .str "p"), ("a", .str "r"), ("f", .function 0)], none⟩] } := by
  have he : Evaluates (machine 2) 0 (.var "f") [.str "p", .str "q"] [("a", .str "r")] World.sampleSurplus
      (.function 0) [.str "p", .str "q"] ⟨[(.str "a", .str "r")]⟩ World.sampleSurplus :=
    .intro rfl (.value nofun nofun nofun rfl (.value nofun nofun nofun rfl .nil))
      (.value (by decide) rfl .nil)
  have hp : (World.sampleSurplus.function 0).params =
      [("a", none), ("b", none)].map fun p => .plain p.1 p.2 := rfl
  have hknown : ∀ k ∈ [Value.str "a"], ∃ name ∈ ["a", "b"], k = .str name := by decide
  exact ((call_surplus he hp (by decide)).2 hknown).2.2.2.trans rfl

end BraceScript
