import BraceScript.Proofs.Call.CallArguments
import Mathlib.Tactic.SplitIfs

/-!
# Keyword arguments by their place

A constructor and a bound method have no parameters that a call could look at. It hands over the values of the
keyword arguments after the positional ones, in the order in which their names were first given, and the names are
lost: a value goes to the field or the parameter that stands in its place. So keyword arguments bind by name only
if they are written in the order of the fields or parameters, from the first one that has no positional argument
on and without a gap.

* `Placed`            arguments found under the names in their places
* `Placed.named`      keyword arguments in order are found under their names
* `fillFields_eq`     the fields of a new instance
* `callScope_fixed`   the scope of a call without parameters that collect arguments
* `call_by_place`     what constructors and methods do with keyword arguments
-/

namespace BraceScript

open Exec

/-! ## places -/

/-- arguments are found under the names in their places: first the positional ones, then the keyword arguments,
whatever their names are -/
structure Placed (find : String → Option Value) (names : List String) (vs : List Value) (d : Dict) : Prop where
  positional {i : Nat} {v : Value} (hv : vs[i]? = some v) {name : String} (hn : names[i]? = some name) :
    find name = some v
  keyword {j : Nat} {key v : Value} (hv : d.entries[j]? = some (key, v)) {name : String}
    (hn : names[vs.length + j]? = some name) : find name = some v

section
variable {find : String → Option Value} {names : List String} {vs : List Value} {d : Dict}

theorem Placed.of_getElem? (more : List Value) (h : ∀ {i : Nat} {name v}, names[i]? = some name →
    (vs ++ d.values ++ more)[i]? = some v → find name = some v) : Placed find names vs d where
  positional {i v} hv name hn := by
    obtain ⟨hi, -⟩ := List.getElem?_eq_some_iff.mp hv
    refine h hn ?_
    rw [List.append_assoc, List.getElem?_append_left hi, hv]
  keyword {j key v} hv name hn := by
    have hvalue : d.values[j]? = some v := by
      rw [Dict.values, List.getElem?_map, hv]
      rfl
    obtain ⟨hj, -⟩ := List.getElem?_eq_some_iff.mp hvalue
    refine h hn ?_
    rw [List.append_assoc, List.getElem?_append_right (Nat.le_add_right _ _), Nat.add_sub_cancel_left,
      List.getElem?_append_left hj, hvalue]

/-- keyword arguments that are written in the order of the names after the positional ones bind by name -/
theorem Placed.named (h : Placed find names vs d)
    (hd : d.keys = ((names.drop vs.length).take d.size).map .str) {name : String} {v : Value}
    (hv : d.get? name = some v) : find name = some v := by
  obtain ⟨j, hj⟩ := Dict.getElem?_of_get? hv
  have hkey : d.keys[j]? = some (.str name) := by
    rw [Dict.keys, List.getElem?_map, hj]
    rfl
  have hlt : j < d.size := (List.getElem?_eq_some_iff.mp hj).1
  rw [hd, List.getElem?_map, List.getElem?_take_of_lt hlt, List.getElem?_drop] at hkey
  obtain ⟨other, ho, he⟩ := Option.map_eq_some_iff.mp hkey
  cases he
  exact h.keyword hj ho

end

/-! ## instances -/

def fieldValue (m : Machine) (qualified : List (String × String)) (field : String × Option Node) : Exec Value :=
  match field.2 with
  | none => pure .null
  | some e => do fieldDefault m qualified (← get).globals e

/-- a new instance of a class with values for its fields -/
def Dict.instance (className : String) (names : List String) (values : List Value) : Dict :=
  Dict.putAll ⟨[(.str "__type__", .str className)]⟩ (names.zip values)

/-- **The fields of an instance** take the arguments in order, and the others their defaults. -/
theorem fillFields_eq (m : Machine) (qualified : List (String × String)) (d : Dict)
    (fields : List (String × Option Node)) (args : List Value) :
    fillFields m qualified d fields args =
      (fields.drop args.length).mapM (fieldValue m qualified) >>= fun more =>
        pure (d.putAll ((fields.map Prod.fst).zip (args ++ more))) := by
  induction fields generalizing d args with
  | nil =>
    rw [List.drop_nil, List.mapM_nil, pure_bind]
    rfl
  | cons field fields ih =>
    obtain ⟨name, value⟩ := field
    cases args with
    | cons v args => exact ih (d.insert (.str name) v) args
    | nil =>
      rw [List.length_nil, List.drop_zero, List.mapM_cons]
      cases value with
      | none =>
        rw [fillFields, ih]
        simp [fieldValue, Dict.putAll]
      | some e =>
        simp only [fillFields, ih]
        simp [fieldValue, Dict.putAll]

/-- **A constructor** makes an instance of its arguments and defaults. -/
theorem construct_eq (m : Machine) (className : String) (fields : List (String × Option Node))
    (qualified : List (String × String)) (args : List Value) :
    construct m className fields qualified args =
      (fields.drop args.length).mapM (fieldValue m qualified) >>= fun more =>
        newDict (.instance className (fields.map Prod.fst) (args ++ more)) := by
  rw [construct, fillFields_eq, bind_assoc]
  simp only [pure_bind]
  rfl

theorem placed_instance {names : List String} (hn : names.Nodup) (className : String) (vs : List Value) (d : Dict)
    (more : List Value) : Placed (Dict.instance className names (vs ++ d.values ++ more)).get? names vs d :=
  .of_getElem? more (Dict.get?_putAll_of_getElem? _ hn)

/-! ## methods -/

/-- parameters that do not collect arguments have one name each -/
theorem params_fixed {ps : List (Param Node)} (h : ∀ p ∈ ps, p.isCollector = false) :
    restName none ps = none ∧ keywordsName none ps = none ∧ (fixedNames ps).length = ps.length := by
  induction ps with
  | nil => exact ⟨rfl, rfl, rfl⟩
  | cons p ps ih =>
    rw [List.forall_mem_cons] at h
    obtain ⟨hrest, hkeywords, hlength⟩ := ih h.2
    cases p with
    | rest name => cases h.1
    | keywords name => cases h.1
    | _ => exact ⟨hrest, hkeywords, congrArg (· + 1) hlength⟩

/-- the scope of a call of a function without parameters that collect arguments: there must be one argument for
each parameter -/
theorem callScope_fixed {c : Closure} (h : ∀ p ∈ c.params, p.isCollector = false) (args : List Value)
    (w : World) :
    callScope c args w =
      if !(fixedNames c.params).isEmpty && !args.all w.showable then .error (.fault .tooManyDigits) w
      else if args.length < (fixedNames c.params).length then .error (.fault (.indexRange "list")) w
      else if (fixedNames c.params).length < args.length then .error (.fault .tooManyArguments) w
      else .ok ((w.scope c.scope).putAll ((fixedNames c.params).zip args)) w := by
  obtain ⟨hrest, hkeywords, -⟩ := params_fixed h
  rw [callScope_eq, hrest, hkeywords]
  split
  · rfl
  by_cases hfew : args.length < (fixedNames c.params).length
  · rw [if_pos hfew, if_neg (Nat.not_le_of_lt hfew)]
  rw [if_neg hfew, if_pos (Nat.le_of_not_lt hfew)]
  by_cases hmany : (fixedNames c.params).length < args.length
  · have hleft : args.drop (fixedNames c.params).length ≠ [] :=
      mt List.drop_eq_nil_iff.mp (Nat.not_le_of_lt hmany)
    obtain ⟨v, left, hl⟩ := List.exists_cons_of_ne_nil hleft
    rw [if_pos hmany, hl]
    rfl
  · rw [if_neg hmany, List.drop_eq_nil_of_le (Nat.le_of_not_lt hmany)]
    rfl

theorem callFunction_fixed {m : Machine} {cell : Nat} {w : World}
    (h : ∀ p ∈ (w.function cell).params, p.isCollector = false) (args : List Value) :
    callFunction m cell args w =
      if !(fixedNames (w.function cell).params).isEmpty && !args.all w.showable then
        .error (.fault .tooManyDigits) w
      else if args.length < (fixedNames (w.function cell).params).length then
        .error (.fault (.indexRange "list")) w
      else if (fixedNames (w.function cell).params).length < args.length then
        .error (.fault .tooManyArguments) w
      else leaving w.active (runBlock m w.scopes.size .null (w.function cell).body)
        (w.enter ((w.scope (w.function cell).scope).putAll ((fixedNames (w.function cell).params).zip args))) := by
  have hscope := callScope_fixed h args w
  split_ifs at hscope ⊢
  · exact callFunction_refused hscope
  · exact callFunction_refused hscope
  · exact callFunction_refused hscope
  · exact callFunction_run hscope

theorem placed_scope {names : List String} (hn : names.Nodup) (s : Scope) (vs : List Value) (d : Dict) :
    Placed (s.putAll (names.zip (vs ++ d.values))).find? names vs d := by
  refine .of_getElem? [] fun hi hv => ?_
  rw [List.append_nil] at hv
  exact s.find?_putAll_of_getElem? hn hi hv

/-! ## calls -/

/-- **What constructors and methods do with keyword arguments.** A constructor evaluates the defaults of the fields
that are left when each argument, positional or keyword, has taken one; what one of them ends with, the call ends
with. The new instance holds each argument under the field in its place, and the defaults after them. A method
binds the object and then the arguments to its parameters by their places: unless they have a text and are as many
as the parameters, the call fails, also if a parameter has a default. So a keyword argument goes to what it names
if it stands in the place of that, and to another field or parameter otherwise; all of them bind by name if their
names are, in order, those that follow the positional arguments. -/
theorem call_by_place {n s cell : Nat} {callee : Node} {args : List Node} {keywords : List (String × Node)}
    {vs : List Value} {d : Dict} {w w' : World}
    (he : Evaluates (machine (n + 1)) s callee args keywords w (.callable cell) vs d w') :
    (∀ className fields qualified included,
      w'.callable cell = .constructor className fields qualified included →
      let names := fields.map Prod.fst
      let defaults := (fields.drop (vs.length + d.size)).mapM (fieldValue (machine n) qualified)
      (∀ signal u, defaults w' = .error signal u →
        (machine (n + 2)).exec (.call callee args keywords) s w = .error signal u) ∧
      ∀ more u, defaults w' = .ok more u →
        let made := Dict.instance className names (vs ++ d.values ++ more)
        (machine (n + 2)).exec (.call callee args keywords) s w =
          .ok (.dict u.dicts.size) { u with dicts := u.dicts.push made } ∧
        (names.Nodup → Placed made.get? names vs d ∧
          (d.keys = ((names.drop vs.length).take d.size).map .str →
            ∀ name v, d.get? name = some v → made.get? name = some v))) ∧
    ∀ function self, w'.callable cell = .method function self →
      (∀ p ∈ (w'.function function).params, p.isCollector = false) →
      let names := fixedNames (w'.function function).params
      let given := self :: vs ++ d.values
      let scope := (w'.scope (w'.function function).scope).putAll (names.zip given)
      (machine (n + 2)).exec (.call callee args keywords) s w =
        (if !names.isEmpty && !given.all w'.showable then .error (.fault .tooManyDigits) w'
        else if given.length < names.length then .error (.fault (.indexRange "list")) w'
        else if names.length < given.length then .error (.fault .tooManyArguments) w'
        else leaving w'.active (runBlock (machine n) w'.scopes.size .null (w'.function function).body)
          (w'.enter scope)) ∧
      (names.Nodup → Placed scope.find? names (self :: vs) d ∧
        (d.keys = ((names.drop (self :: vs).length).take d.size).map .str →
          ∀ name v, d.get? name = some v → scope.find? name = some v)) := by
  constructor
  · intro className fields qualified included hc names defaults
    have hcall := he.exec_callable (by rw [hc]; rfl)
    have hmake : (machine (n + 2)).exec (.call callee args keywords) s w =
        (defaults >>= fun more => newDict (.instance className names (vs ++ d.values ++ more))) w' := by
      have hl : (vs ++ d.values).length = vs.length + d.size := by
        rw [List.length_append, Dict.values, List.length_map, Dict.size]
      rw [hcall]
      simp only [callValue, bind_run, get_run, hc]
      rw [construct_eq, hl, bind_run]
    constructor
    · intro signal u hu
      rw [hmake, bind_run, hu]
    · intro more u hu made
      refine ⟨?_, fun hn => ?_⟩
      · rw [hmake, bind_run, hu]
        rfl
      · have hplaced := placed_instance hn className vs d more
        exact ⟨hplaced, fun hk name v hv => hplaced.named hk hv⟩
  · intro function self hc hfixed names given scope
    refine ⟨?_, fun hn => ?_⟩
    · rw [he.exec_callable (by rw [hc]; rfl)]
      simp only [callValue, bind_run, get_run, hc]
      exact callFunction_fixed hfixed given
    · have hplaced := placed_scope hn (w'.scope (w'.function function).scope) (self :: vs) d
      exact ⟨hplaced, fun hk name v hv => hplaced.named hk hv⟩

/-- a state with a class `P` of two fields `x` and `y` and a method of two parameters `a` and `b` that gives `a`,
and an instance `p` of it; the bound methods were made -/
def World.sampleClass (methods : List Callable) : World :=
  { (default : World) with
    scopes := #[⟨[("p", .dict 0), ("P", .callable 0)], none⟩]
    dicts := #[.instance "P" ["x", "y"] [.null, .null]]
    classes := ⟨[("P", ⟨[("x", none), ("y", none)], some [], [("self.m", 0)]⟩)]⟩
    callables := (.constructor "P" [("x", none), ("y", none)] [] false :: methods).toArray
    functions := #[⟨[.receiver, .plain "a" none, .plain "b" none], [.var "a"], 0⟩] }

/-- the calls `P(y = "r", x = "q")` and `p.m(b = "r", a = "q")`: `x` is `"r"` and `y` is `"q"`, and `a` is `"r"` -/
theorem call_by_place_sample :
    (machine 3).exec (.call (.var "P") [] [("y", .str "r"), ("x", .str "q")]) 0 (World.sampleClass []) =
      .ok (.dict 1) { World.sampleClass [] with
        dicts := #[.instance "P" ["x", "y"] [.null, .null], .instance "P" ["x", "y"] [.str "r", .str "q"]] } ∧
    (machine 3).exec (.call (.getAttr (.var "p") "m") [] [("b", .str "r"), ("a", .str "q")]) 0
        (World.sampleClass []) =
      .ok (.str "r") { World.sampleClass [.method 0 (.dict 0)] with
        scopes := #[⟨[("p", .dict 0), ("P", .callable 0)], none⟩,
          ⟨[("b", .str "q"), ("a", .str "r"), ("self", .dict 0), ("p", .dict 0), ("P", .callable 0)],
            none⟩] } := by
  have hmake : Evaluates (machine 2) 0 (.var "P") [] [("y", .str "r"), ("x", .str "q")] (World.sampleClass [])
      (.callable 0) [] ⟨[(.str "y", .str "r"), (.str "x", .str "q")]⟩ (World.sampleClass []) :=
    .intro rfl .nil (.value (by decide) rfl (.value (by decide) rfl .nil))
  have hcall : Evaluates (machine 2) 0 (.getAttr (.var "p") "m") [] [("b", .str "r"), ("a", .str "q")]
      (World.sampleClass []) (.callable 1) [] ⟨[(.str "b", .str "r"), (.str "a", .str "q")]⟩
      (World.sampleClass [.method 0 (.dict 0)]) :=
    .intro rfl .nil (.value (by decide) rfl (.value (by decide) rfl .nil))
  constructor
  · exact (((call_by_place hmake).1 "P" [("x", none), ("y", none)] [] false rfl).2 [] _ rfl).1
  · have hfixed : ∀ p ∈ ((World.sampleClass [.method 0 (.dict 0)]).function 0).params,
        p.isCollector = false := by
      decide
    refine ((call_by_place hcall).2 0 (.dict 0) rfl hfixed).1.trans ((if_neg ?_).trans ?_)
    · decide +kernel
    · rfl

end BraceScript
