import BraceScript.Proofs.Control.ComprehensionTurns
import BraceScript.Proofs.Exec.Outcomes

/-!
# Comprehensions as loops

A list comprehension ends as the loop does that appends its values to a list with a name that is not used
otherwise. The loop runs its trees on machines of less fuel than the comprehension does; in between stands the
loop that runs all of them on one machine.

* `gather_outcome`       the comprehension, and the loop on one machine
* `idealEnd_below`, `below_idealEnd`   the loop on one machine, and the loop
* `SameEnd`              outcomes of a comprehension and a loop that end alike
* `listComp_loop`        a comprehension and its loop end alike
* `listComp_loop_assigned`   they do not, where the value assigns to a name
-/

namespace BraceScript

open Exec

namespace Comprehension

variable {c : Comprehension} {w stop : World} {scope : Nat} {acc : String} {m : Machine} {n : Nat}

/-! ## whole runs -/

/-- collect the values of a comprehension in a list -/
def gather (c : Comprehension) (m : Machine) (scope values : Nat) : Exec Unit :=
  comprehensionPlaces m scope c.iterable c.step >>= fun p =>
    collectPlaces m scope c.value c.var p.1 c.condition.toList values p.2

/-- end a comprehension that started in a state -/
def finish (w : World) : Exec Value := do
  modify fun u => { u with active := w.active }
  return .list w.lists.size

theorem finish_run {x : Exec Unit} {w u v : World} (h : x v = .ok () u) :
    (x >>= fun _ => finish w) v = .ok (.list w.lists.size) { u with active := w.active } := by
  rw [bind_run, h]
  rfl

theorem exec_node (c : Comprehension) (n scope : Nat) (w : World) : (machine (n + 1)).exec c.node scope w =
    (c.gather (machine n) scope w.lists.size >>= fun _ => finish w) w.collecting := by
  rw [gather, bind_assoc]
  rfl

theorem guarded_node (c : Comprehension) (p : Nat → World → Node → Bool) (stop : World) (n scope : Nat) (w : World)
    (hp : p scope w c.node = false) : (guarded p stop (n + 1)).exec c.node scope w =
      (c.gather (guarded p stop n) scope w.lists.size >>= fun _ => finish w) w.collecting := by
  show (if p scope w c.node then .error .exhausted stop else execPlain (guarded p stop n) scope c.node w) = _
  rw [hp, gather, bind_assoc]
  rfl

theorem exec_loop (hl : ∀ v u, (machine (n + 1)).exec c.iterable scope (w.holding scope acc) = .ok v u →
      ∃ cell, v = .list cell) :
    (machine (n + 3)).exec (c.loop acc) scope w =
      (c.loopOn (machine (n + 1)) scope (runBlock (machine (n + 1)) scope .null (c.body acc)) >>=
        afterStatement (machine 0) scope []) (w.holding scope acc) := by
  show (evalFor (machine (n + 1)) scope c.var c.iterable (some c.step) (c.body acc) >>=
    afterStatement (machine 0) scope []) (w.holding scope acc) = _
  rw [bind_run, c.evalFor_loopOn hl, bind_run]

section
variable {m' : Machine} (h : m.Coupled belowCoupling m')
include h

theorem places_below (c : Comprehension) (scope : Nat) : Below (comprehensionPlaces m scope c.iterable c.step)
    (comprehensionPlaces m' scope c.iterable c.step) :=
  comprehensionPlaces_coupled h scope (l := false) trivial trivial

theorem collect_below (c : Comprehension) (scope values : Nat) (v : Value) (places : List Int) :
    Below (collectPlaces m scope c.value c.var v c.condition.toList values places)
      (collectPlaces m' scope c.value c.var v c.condition.toList values places) :=
  collectPlaces_coupled h scope (l := false) trivial c.var v (fun _ _ => trivial) (fun _ _ => trivial) values places

end

def OverList (c : Comprehension) (scope : Nat) (w : World) : Prop :=
  ∀ v u, Executes c.iterable scope w.collecting (.ok v u) → ∃ cell, v = .list cell

/-- no condition and no value of the comprehension steers a loop around it -/
def Steerless (c : Comprehension) (scope : Nat) (w : World) : Prop :=
  ∀ n v places u, comprehensionPlaces (machine n) scope c.iterable c.step w.collecting = .ok (v, places) u →
    ¬ Steers (collectPlaces (machine n) scope c.value c.var v c.condition.toList w.lists.size places u)

/-- a machine that stops at the name does not stop in the comprehension -/
theorem guarded_gather (hu : Unused acc c.node scope w)
    (hstop : (machine (n + 1)).exec c.node scope w ≠ .error .exhausted stop) :
    c.var ≠ acc ∧ c.gather (guarded (mentions acc) stop n) scope w.lists.size w.collecting =
      c.gather (machine n) scope w.lists.size w.collecting := by
  have hmention : mentions acc scope w c.node = false := by
    cases hm : mentions acc scope w c.node with
    | false => rfl
    | true =>
      have hrun : (guarded (mentions acc) stop (n + 1)).exec c.node scope w = .error .exhausted stop := by
        show (if mentions acc scope w c.node then (.error .exhausted stop : Ending) else _) = _
        rw [if_pos hm]
      exact absurd ((hu (n + 1) stop).symm.trans hrun) hstop
  have hvar : c.var ≠ acc := by
    rintro rfl
    simp [mentions, node, Node.bound] at hmention
  have hbelow : Below (c.gather (guarded (mentions acc) stop n) scope w.lists.size)
      (c.gather (machine n) scope w.lists.size) :=
    (places_below (guarded_below _ stop n) c scope).bind fun p =>
      collect_below (guarded_below _ stop n) c scope w.lists.size p.1 p.2
  have htotal := hu (n + 1) stop
  rw [guarded_node c _ _ _ _ _ hmention, exec_node, bind_run, bind_run] at htotal
  refine ⟨hvar, ?_⟩
  rcases hbelow w.collecting with he | ⟨u, hx⟩
  · exact he
  · rw [hx] at htotal ⊢
    cases hg : c.gather (machine n) scope w.lists.size w.collecting with
    | ok a u' =>
      rw [hg] at htotal
      cases htotal
    | error s u' =>
      rw [hg] at htotal
      cases htotal
      rfl

section
variable (hc : c.Proper) (hw : w.Tidy) (hs : w.Current scope) (hf : (w.scope scope).find? acc = none)
  (hu : Unused acc c.node scope w)
include hc hw hs hf hu

/-- **The comprehension and the loop gather alike**, with one machine for all trees. -/
theorem gather_outcome (hsteer : c.Steerless scope w)
    (hstop : (machine (n + 3)).exec c.node scope w ≠ .error .exhausted stop) :
    (gatherBond w scope acc stop).Outcome NoValue
      (c.gather (machine (n + 2)) scope w.lists.size w.collecting)
      (c.loopOn (machine (n + 2)) scope (c.bodyOn (machine (n + 2)) scope acc) (w.holding scope acc)) := by
  obtain ⟨hvar, hgather⟩ := guarded_gather hu hstop
  have hB := straight_gatherBond w scope acc stop
  have hm : (gatherBond w scope acc stop).Machines (guarded (mentions acc) stop (n + 2)) (machine (n + 2)) :=
    Bond.machines_guarded rfl clear_gatherBond (n + 2)
  obtain ⟨-, hi, hk, -⟩ := hc.shape (gatherBond w scope acc stop)
  rw [← hgather, gather, loopOn]
  refine (Bond.sim_comprehensionPlaces hm (hB.scopes.mpr rfl) hi hk _ _
    (match_gatherBond hw hs hf stop)).bind_of_run ?_
  rintro ⟨v, places⟩ ⟨v', places'⟩ u u' hrun ⟨hv, rfl⟩ hmatch
  cases hB.val.mp hv
  refine places_outcome hc hs.lt hm hvar places hmatch fun hst => ?_
  -- what steers on the machine that may stop does so on the machine
  have hplaces := (places_below (guarded_below (mentions acc) stop (n + 2)) c scope).eq (w := w.collecting)
    fun u₁ he => by cases hrun.symm.trans he
  have hcollect := (collect_below (guarded_below (mentions acc) stop (n + 2)) c scope w.lists.size v places).eq
    (w := u) fun u₁ he => by
      obtain ⟨s, u₂, hs₂, hor⟩ := hst
      rw [he] at hs₂
      cases hs₂
      rcases hor with ho | ho <;> cases ho
  rw [← hcollect] at hst
  exact hsteer (n + 2) v places u (hplaces.trans hrun) hst

theorem list_holding (hl : c.OverList scope w)
    (hstop : (machine (n + 1)).exec c.node scope w ≠ .error .exhausted stop) (v : Value) (u : World)
    (hv : (machine n).exec c.iterable scope (w.holding scope acc) = .ok v u) : ∃ cell, v = .list cell := by
  obtain ⟨-, hgather⟩ := guarded_gather hu hstop
  have hB := straight_gatherBond w scope acc stop
  have hm : (gatherBond w scope acc stop).Machines (guarded (mentions acc) stop n) (machine n) :=
    Bond.machines_guarded rfl clear_gatherBond n
  have hsim := hm.tree (hc.shape _).2.1 (hB.scopes.mpr (Eq.refl scope)) _ _ (match_gatherBond hw hs hf stop)
  rw [hv] at hsim
  cases hg : (guarded (mentions acc) stop n).exec c.iterable scope w.collecting with
  | ok v₁ u₁ =>
    rw [hg] at hsim
    cases hsim with
    | ok hval _ =>
      cases hB.val.mp hval
      have hexec : Below ((guarded (mentions acc) stop n).exec c.iterable scope) ((machine n).exec c.iterable scope) :=
        (guarded_below (mentions acc) stop n).exec (l := false) trivial scope
      have hrun := hexec.eq (w := w.collecting) fun u₂ he => by
        cases hg.symm.trans he
      exact hl _ u₁ ⟨n, hrun.trans hg, not_exhausted_ok _ _⟩
  | error s u₁ =>
    rw [hg] at hsim
    cases hsim with
    | stop hst =>
      have hstopped : c.gather (guarded (mentions acc) stop n) scope w.lists.size w.collecting =
          .error .exhausted u₁ := by
        rw [gather, comprehensionPlaces, bind_run, bind_run, hg]
      refine absurd ?_ hstop
      rw [exec_node, bind_run, ← hgather, hstopped, hst]

end

/-- the loop with one machine for all trees -/
def idealEnd (c : Comprehension) (n scope : Nat) (acc : String) (w : World) : Ending :=
  (c.loopOn (machine n) scope (c.bodyOn (machine n) scope acc) >>= afterStatement (machine 0) scope [])
    (w.holding scope acc)

end Comprehension

/-! ## ends -/

/-- a comprehension and a loop end alike: the comprehension gives the list that the name is bound to after the
loop, or both end with the same signal, in states that are equal apart from the name -/
inductive SameEnd (acc : String) (scope cell : Nat) : Ending → Ending → Prop
  | value {u u' : World} (hu : u.SameApart acc u') (ha : (u'.scope scope).find? acc = some (.list cell)) :
    SameEnd acc scope cell (.ok (.list cell) u) (.ok .null u')
  | signal {s : Signal} {u u' : World} (hu : u.SameApart acc u')
    (ha : (u'.scope scope).find? acc = some (.list cell)) : SameEnd acc scope cell (.error s u) (.error s u')

theorem SameEnd.exhausted_iff {acc : String} {scope cell : Nat} {r r' : Ending} (h : SameEnd acc scope cell r r') :
    r.Exhausted ↔ r'.Exhausted := by
  cases h with
  | value => exact iff_of_false (not_exhausted_ok _ _) (not_exhausted_ok _ _)
  | signal =>
    constructor
    · rintro ⟨u, he⟩
      cases he
      exact ⟨_, rfl⟩
    · rintro ⟨u, he⟩
      cases he
      exact ⟨_, rfl⟩

namespace Comprehension

variable {c : Comprehension} {w : World} {scope n : Nat} {acc : String}

section
variable (hc : c.Proper) (hw : w.Tidy) (hs : w.Current scope) (hf : (w.scope scope).find? acc = none)
  (hu : Unused acc c.node scope w)
include hc hw hs hf hu

theorem sameEnd_idealEnd (hsteer : c.Steerless scope w) :
    SameEnd acc scope w.lists.size ((machine (n + 3)).exec c.node scope w) (c.idealEnd (n + 2) scope acc w) := by
  obtain ⟨stop, hstop⟩ := exists_not_left ((machine (n + 3)).exec c.node scope w)
  have hB := straight_gatherBond w scope acc stop
  have hout := gather_outcome hc hw hs hf hu hsteer hstop
  have hsame {u u' : World} (h : (gatherBond w scope acc stop).Match u u') : u.SameApart acc u' :=
    hB.sameApart h (fun _ => id) rfl rfl rfl
  have hbound {u u' : World} (h : (gatherBond w scope acc stop).Match u u') :
      (u'.scope scope).find? acc = some (.list w.lists.size) := (h.pinned rfl).trans (World.find?_holding hs.lt acc)
  rw [exec_node, bind_run] at hstop ⊢
  rw [idealEnd, bind_run]
  revert hout hstop
  generalize c.gather (machine (n + 2)) scope w.lists.size w.collecting = r
  generalize c.loopOn (machine (n + 2)) scope _ (w.holding scope acc) = r'
  intro hstop hout
  cases hout with
  | ok hv hm =>
    cases hv
    have h := hsame hm
    exact .value ⟨h.rest, h.size, h.find, h.unnamed⟩ (hbound hm)
  | error he hm =>
    cases hB.signal he
    exact .signal (hsame hm) (hbound hm)
  | stop hst => exact absurd (congrArg _ hst) hstop

/-- the loop has fuel for what one machine does, if it has some more -/
theorem idealEnd_below (hl : c.OverList scope w) (hne : ¬ (c.idealEnd (n + 2) scope acc w).Exhausted) :
    (machine (n + 6)).exec (c.loop acc) scope w = c.idealEnd (n + 2) scope acc w := by
  obtain ⟨stop, hstop⟩ := exists_not_left ((machine (n + 5)).exec c.node scope w)
  have hbelow : Below (c.loopOn (machine (n + 2)) scope (c.bodyOn (machine (n + 2)) scope acc))
      (c.loopOn (machine (n + 4)) scope (runBlock (machine (n + 4)) scope .null (c.body acc))) :=
    (places_below (machine_coupled belowCoupling_total (by omega)) c scope).bind fun p =>
      visit_below scope c.var p.1 (c.bodyOn_below (n + 2) scope acc) p.2
  rw [exec_loop (list_holding hc hw hs hf hu hl hstop)]
  exact (hbelow.bind fun _ => .refl _).eq fun u he => hne ⟨u, he⟩

/-- one machine for all trees does what the loop has fuel for -/
theorem below_idealEnd (hl : c.OverList scope w)
    (hne : ¬ Ending.Exhausted ((machine (n + 4)).exec (c.loop acc) scope w)) :
    c.idealEnd (n + 2) scope acc w = (machine (n + 4)).exec (c.loop acc) scope w := by
  obtain ⟨stop, hstop⟩ := exists_not_left ((machine (n + 3)).exec c.node scope w)
  have hbelow : Below (c.loopOn (machine (n + 2)) scope (runBlock (machine (n + 2)) scope .null (c.body acc)))
      (c.loopOn (machine (n + 2)) scope (c.bodyOn (machine (n + 2)) scope acc)) :=
    (Below.refl _).bind fun p => visit_below scope c.var p.1 (c.below_bodyOn (n + 2) scope acc) p.2
  rw [exec_loop (list_holding hc hw hs hf hu hl hstop)] at hne ⊢
  exact (hbelow.bind fun _ => .refl _).eq fun u he => hne ⟨u, he⟩

end

end Comprehension

/-- a state with a list `xs` of four numbers -/
def World.sampleList : World :=
  { World.start [] [] ⟨[]⟩ "main" with
    lists := #[#[], #[.int 1, .int 2, .int 3, .int 4]]
    scopes := #[⟨[("xs", .list 1)], none⟩] }

/-- the state in a comprehension over the list: what is left of the list, the values that it has collected and the
item that is visited -/
def World.sampleTurn (xs values : List Int) (x : Int) : World :=
  { World.sampleList with
    lists := #[#[], (xs.map Value.int).toArray, (values.map Value.int).toArray]
    scopes := #[⟨[("x", .int x), ("xs", .list 1)], none⟩]
    active := [.list 2] }

/-- `[xs.pop() | x, xs, 2 | x]`, which takes items from the list that it visits -/
def Comprehension.sample : Comprehension :=
  ⟨.call (.getAttr (.var "xs") "pop") [] [], "x", .var "xs", .num (.int 2), some (.var "x")⟩

namespace Comprehension

section
variable {m : Machine}
  (hp : comprehensionPlaces m 0 sample.iterable sample.step World.sampleList.collecting =
    .ok (.list 1, [0, 2]) World.sampleList.collecting)
include hp

theorem sample_cut {s : Signal} {u : World} (h : sample.turn m 0 2 (.sampleTurn [1, 2, 3, 4] [] 1) = .error s u) :
    sample.gather m 0 2 World.sampleList.collecting = .error s u := by
  have hitem : (element (.list 1) (.int 0) >>= fun item => bindName 0 "x" item) World.sampleList.collecting =
      .ok () (.sampleTurn [1, 2, 3, 4] [] 1) := rfl
  rw [gather, bind_run, hp]
  show collectPlaces m 0 sample.value sample.var (.list 1) sample.condition.toList 2 [0, 2] _ = _
  rw [collectPlaces_turn, bind_run, sample, hitem]
  dsimp only
  rw [bind_run, ← sample, h]

theorem sample_whole
    (h : sample.turn m 0 2 (.sampleTurn [1, 2, 3, 4] [] 1) = .ok () (.sampleTurn [1, 2, 3] [4] 1))
    (h' : sample.turn m 0 2 (.sampleTurn [1, 2, 3] [4] 3) =
      .ok () (.sampleTurn [1, 2] [4, 3] 3)) :
    sample.gather m 0 2 World.sampleList.collecting =
      .ok () (.sampleTurn [1, 2] [4, 3] 3) := by
  have hitem : (element (.list 1) (.int 0) >>= fun item => bindName 0 sample.var item) World.sampleList.collecting =
      .ok () (.sampleTurn [1, 2, 3, 4] [] 1) := rfl
  have hnext : (element (.list 1) (.int 2) >>= fun item => bindName 0 sample.var item)
      (.sampleTurn [1, 2, 3] [4] 1) = .ok () (.sampleTurn [1, 2, 3] [4] 3) := rfl
  rw [gather, bind_run, hp]
  show collectPlaces m 0 sample.value sample.var (.list 1) sample.condition.toList 2 [0, 2] _ = _
  rw [collectPlaces_turn, bind_run, hitem]
  dsimp only
  rw [bind_run, h]
  dsimp only
  rw [collectPlaces_turn, bind_run, hnext]
  dsimp only
  rw [bind_run, h']
  rfl

end

/-- a machine of fuel two has enough for the sample, and those of less are cut in its first turn -/
theorem sample_gather (n : Nat) (u : World) :
    sample.gather (guarded (mentions "acc") u n) 0 2 World.sampleList.collecting =
      sample.gather (machine n) 0 2 World.sampleList.collecting := by
  rcases n with _ | _ | n
  · rfl
  · exact (sample_cut rfl rfl).trans (sample_cut (m := machine 1) rfl rfl).symm
  · exact (sample_whole rfl rfl rfl).trans (sample_whole (m := machine (n + 2)) rfl rfl rfl).symm

theorem sample_unused : Unused "acc" sample.node 0 World.sampleList := by
  intro n u
  cases n with
  | zero => rfl
  | succ n =>
    rw [guarded_node _ _ _ _ _ _ rfl, exec_node]
    exact Exec.bind_congr (sample_gather n u) _

theorem sample_proper : sample.Proper where
  closed := rfl
  assign name t he := by cases he
  unpack t he := by cases he
  keywordUnpack t he := by cases he

theorem sample_overList : sample.OverList 0 World.sampleList := by
  rintro v u ⟨n, hr, -⟩
  cases n with
  | zero => cases hr
  | succ n =>
    have hvar : (machine (n + 1)).exec sample.iterable 0 World.sampleList.collecting =
        .ok (.list 1) World.sampleList.collecting := rfl
    rw [hvar] at hr
    cases hr
    exact ⟨1, rfl⟩

theorem sample_steerless : sample.Steerless 0 World.sampleList := by
  rintro n v places u hplaces ⟨s, u', hcollect, hsteer⟩
  have hrun : sample.gather (machine n) 0 2 World.sampleList.collecting = .error s u' := by
    rw [gather, bind_run, hplaces]
    exact hcollect
  rcases n with _ | _ | n
  · cases hplaces
  · cases (sample_cut (m := machine 1) rfl rfl).symm.trans hrun
    rcases hsteer with h | h <;> cases h
  · cases (sample_whole (m := machine (n + 2)) rfl rfl rfl).symm.trans hrun

end Comprehension

theorem World.sampleList_tidy : World.sampleList.Tidy :=
  World.tidy_of_empty rfl rfl rfl rfl (List.nodup_singleton "xs")

/-- `[y = x + y | x, [1, 2, 3], 1]`, whose value assigns to a name -/
def Comprehension.summing : Comprehension :=
  ⟨.assign "y" (.binop .add (.var "x") (.var "y")), "x", .list [.num (.int 1), .num (.int 2), .num (.int 3)],
    .num (.int 1), none⟩

/-- a state in which `y` is zero -/
def World.sampleSum : World :=
  { World.start [] [] ⟨[]⟩ "main" with scopes := #[⟨[("y", .int 0)], none⟩] }

namespace Comprehension

theorem summing_read : parseSource "[y = x + y | x, [1, 2, 3], 1]" = .ok [summing.node] := by
  have ht : tokenize "[y = x + y | x, [1, 2, 3], 1]" = [⟨.symbol, "["⟩, ⟨.ident, "y"⟩, ⟨.op, "="⟩, ⟨.ident, "x"⟩,
      ⟨.op, "+"⟩, ⟨.ident, "y"⟩, ⟨.symbol, "|"⟩, ⟨.ident, "x"⟩, ⟨.symbol, ","⟩, ⟨.symbol, "["⟩, ⟨.number, "1"⟩,
      ⟨.symbol, ","⟩, ⟨.number, "2"⟩, ⟨.symbol, ","⟩, ⟨.number, "3"⟩, ⟨.symbol, "]"⟩, ⟨.symbol, ","⟩, ⟨.number, "1"⟩,
      ⟨.symbol, "]"⟩] := by decide +kernel
  rw [parseSource, ht]
  rfl

/-- in the text of the loop, the value is a named argument -/
theorem summing_loop_read : ∃ body, summing.loop "acc" = .block body ∧
    parseSource "acc = [] for (x, [1, 2, 3], 1) \x7b acc.append(y = x + y) \x7d" = .ok body := by
  have ht : tokenize "acc = [] for (x, [1, 2, 3], 1) \x7b acc.append(y = x + y) \x7d" = [⟨.ident, "acc"⟩, ⟨.op, "="⟩,
      ⟨.symbol, "["⟩, ⟨.symbol, "]"⟩, ⟨.keyword, "for"⟩, ⟨.symbol, "("⟩, ⟨.ident, "x"⟩, ⟨.symbol, ","⟩, ⟨.symbol, "["⟩,
      ⟨.number, "1"⟩, ⟨.symbol, ","⟩, ⟨.number, "2"⟩, ⟨.symbol, ","⟩, ⟨.number, "3"⟩, ⟨.symbol, "]"⟩, ⟨.symbol, ","⟩,
      ⟨.number, "1"⟩, ⟨.symbol, ")"⟩, ⟨.symbol, "\x7b"⟩, ⟨.ident, "acc"⟩, ⟨.symbol, "."⟩, ⟨.ident, "append"⟩,
      ⟨.symbol, "("⟩, ⟨.ident, "y"⟩, ⟨.op, "="⟩, ⟨.ident, "x"⟩, ⟨.op, "+"⟩, ⟨.ident, "y"⟩, ⟨.symbol, ")"⟩,
      ⟨.symbol, "\x7d"⟩] := by decide +kernel
  refine ⟨_, rfl, ?_⟩
  rw [parseSource, ht]
  rfl

end Comprehension

end BraceScript
