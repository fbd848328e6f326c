import BraceScript.Proofs.Call.ByPlace
import BraceScript.Proofs.Exec.Showable

/-!
# Calls with a list of arguments

Bound methods and the builtin functions over collections hand a list of arguments to a function itself. A parameter
takes the argument in its place as long as that place lies within the text of the arguments, and its default from
there on. The text of a list is longer than the list, so no default is ever looked at: the arguments end first.

* `bindWithin`         the loop over the parameters
* `bindWithin_run`     it never comes to what stands in for an argument
* `callScope_within`   the scope of a call, for every function
* `direct_call`        one argument for each parameter
-/

namespace BraceScript

open Exec

/-- bind names to the arguments from a place on while the place lies within the text of the arguments, and to what
`other` gives after that -/
def bindWithin (other : Scope → String → Exec Value) (args : List Value) :
    Nat → Scope → List String → Exec Scope
  | _, s, [] => pure s
  | i, s, name :: names => do
    let text ← query (·.listText args)
    let v ← if i < text.length then argument args i else other s name
    bindWithin other args (i + 1) (s.insert name v) names

section
variable {w : World} {args : List Value} {other : Scope → String → Exec Value}

theorem bindWithin_run {text : String} (ht : w.listText args = .ok text) {i : Nat} (hi : i ≤ args.length)
    (s : Scope) (names : List String) :
    bindWithin other args i s names w = ofExcept (bindFixed s names (args.drop i)) w := by
  induction names generalizing i s with
  | nil => rfl
  | cons name names ih =>
    -- the loop stops at the end of the arguments at the latest, and their text reaches beyond it
    have hwithin : i < text.length := Nat.lt_of_le_of_lt hi (World.length_lt_of_listText ht)
    have hquery : query (·.listText args) w = .ok text w := by
      simp only [query, bind_run, get_run, ht]
      rfl
    rw [bindWithin, bind_run, hquery]
    dsimp only
    rw [if_pos hwithin, bind_run, argument, ← List.head?_drop]
    cases hd : args.drop i with
    | nil => rfl
    | cons v rest =>
      have hlt : i < args.length := Nat.lt_of_not_le fun hle => by
        cases hd.symm.trans (List.drop_eq_nil_of_le hle)
      have hrest : args.drop (i + 1) = rest := by
        rw [← List.tail_drop, hd]
        rfl
      exact (ih hlt (s.insert name v)).trans (by rw [hrest]; rfl)

/-- without a text of the arguments, the first parameter ends the call -/
theorem bindWithin_fail {f : Fault} (ht : w.listText args = .error f) (i : Nat) (s : Scope) {names : List String}
    (hn : names ≠ []) : bindWithin other args i s names w = .error (.fault f) w := by
  obtain ⟨name, names, rfl⟩ := List.exists_cons_of_ne_nil hn
  simp only [bindWithin, query, bind_run, get_run, ht]
  rfl

/-- **The scope of a call does not depend on what stands in for an argument.** -/
theorem callScope_within (c : Closure) (args : List Value) (other : Scope → String → Exec Value) (w : World) :
    callScope c args w =
      (bindWithin other args 0 (w.scope c.scope) (fixedNames c.params) >>= fun s =>
        bindCollectors s (restName none c.params) (keywordsName none c.params)
          (args.drop (fixedNames c.params).length)) w := by
  rw [callScope_eq, bind_run]
  by_cases hn : fixedNames c.params = []
  · rw [hn]
    rfl
  have hne : (fixedNames c.params).isEmpty = false := List.isEmpty_eq_false_iff.mpr hn
  have htext := w.textIf_listText args
  rw [hne]
  generalize hshown : args.all w.showable = shown at htext
  generalize ht : w.listText args = r at htext
  cases htext with
  | text text =>
    rw [bindWithin_run ht (Nat.zero_le _), bindFixed_eq, List.drop_zero]
    split
    · rename_i hb
      cases hb
    · split <;> rfl
  | none =>
    rw [bindWithin_fail ht 0 _ hn]
    rfl

end

/-! ## calls -/

/-- **A function called with a list of arguments needs one for each parameter,** whatever the defaults are. If the
arguments have a text, or there is no parameter, then the body runs with as many arguments as parameters; with fewer
the list ends too early, with more there are too many, and nothing is executed. The text is longer than the list, so
what would stand in for an argument is never asked for. Arguments without a text end the call of a function that has
a parameter, however many they are. -/
theorem direct_call {m : Machine} {cell : Nat} {w : World}
    (h : ∀ p ∈ (w.function cell).params, p.isCollector = false) (args : List Value) :
    let c := w.function cell
    let base := w.scope c.scope
    let names := fixedNames c.params
    (∀ text, w.listText args = .ok text → args.length < text.length) ∧
    (∀ other, callScope c args w = (bindWithin other args 0 base names >>= fun s =>
      bindCollectors s none none (args.drop c.params.length)) w) ∧
    (c.params = [] ∨ (∃ text, w.listText args = .ok text) →
      (args.length = c.params.length → callFunction m cell args w =
        leaving w.active (runBlock m w.scopes.size .null c.body) (w.enter (base.putAll (names.zip args)))) ∧
      (args.length < c.params.length → callFunction m cell args w = .error (.fault (.indexRange "list")) w) ∧
      (c.params.length < args.length → callFunction m cell args w = .error (.fault .tooManyArguments) w)) ∧
    ∀ f, w.listText args = .error f → f = .tooManyDigits ∧
      (c.params ≠ [] → callFunction m cell args w = .error (.fault f) w) := by
  intro c base names
  have hrun := callFunction_fixed (m := m) h args
  obtain ⟨hrest, hkeywords, hlen⟩ := params_fixed h
  have htext := w.textIf_listText args
  refine ⟨fun _ => World.length_lt_of_listText, fun other => ?_, fun hs => ?_, fun f hf => ?_⟩
  · rw [callScope_within c args other w, hrest, hkeywords, hlen]
  · have hshown : ¬ (!names.isEmpty && !args.all w.showable) = true := by
      rcases hs with hnil | ⟨text, ht⟩
      · rw [List.isEmpty_iff_length_eq_zero.mpr (hlen.trans (by rw [hnil]; rfl))]
        exact Bool.false_ne_true
      · rw [ht] at htext
        rw [htext.unique (.text text), Bool.not_true, Bool.and_false]
        exact Bool.false_ne_true
    rw [if_neg hshown, hlen] at hrun
    refine ⟨fun heq => ?_, fun hfew => ?_, fun hmany => ?_⟩
    · rw [hrun, if_neg (Nat.not_lt_of_le (Nat.le_of_eq heq.symm)), if_neg (Nat.not_lt_of_le (Nat.le_of_eq heq))]
    · rw [hrun, if_pos hfew]
    · rw [hrun, if_neg (Nat.not_lt_of_gt hmany), if_pos hmany]
  · rw [hf] at htext
    generalize hshown : args.all w.showable = shown at htext
    cases htext
    refine ⟨rfl, fun hn => ?_⟩
    have hne : names.isEmpty = false :=
      List.isEmpty_eq_false_iff.mpr fun hnil =>
        hn (List.length_eq_zero_iff.mp (hlen.symm.trans (congrArg List.length hnil)))
    rw [hrun, if_pos (by rw [hne, hshown]; rfl)]

/-- a state with a method of `self` and `x = "r"` that gives `x` -/
def World.sampleMethod : World :=
  { (default : World) with
    scopes := #[default]
    functions := #[⟨[.receiver, .plain "x" (some (.str "r"))], [.var "x"], 0⟩] }

/-- two arguments run the method; one does not, despite the default, nor do two if one is too large a number -/
theorem direct_call_sample :
    callFunction (machine 1) 0 [.null, .str "p"] World.sampleMethod = .ok (.str "p")
      { World.sampleMethod with scopes := #[default, ⟨[("x", .str "p"), ("self", .null)], none⟩] } ∧
    callFunction (machine 1) 0 [.null] World.sampleMethod =
      .error (.fault (.indexRange "list")) World.sampleMethod ∧
    callFunction (machine 1) 0 [.null, .int (.ofNat (Nat.pow 10 maxDigits))] World.sampleMethod =
      .error (.fault .tooManyDigits) World.sampleMethod := by
  have hfixed : ∀ p ∈ (World.sampleMethod.function 0).params, p.isCollector = false := by decide
  have hnone (n : Int) (hn : ¬ n.natAbs < Nat.pow 10 maxDigits) :
      World.sampleMethod.listText [.null, .int n] = .error .tooManyDigits := by
    have hint : World.sampleMethod.shown (.int n) = intText n := rfl
    rw [World.listText, List.mapM_cons, List.mapM_cons, hint, intText, if_neg hn]
    rfl
  refine ⟨?_, ?_, ?_⟩
  · exact ((direct_call hfixed _).2.2.1 (.inr ⟨"[None, 'p']", rfl⟩)).1 rfl
  · exact ((direct_call hfixed _).2.2.1 (.inr ⟨"[None]", rfl⟩)).2.1 (by decide)
  · exact ((direct_call hfixed _).2.2.2 _ (hnone _ (by decide +kernel))).2 nofun

end BraceScript
