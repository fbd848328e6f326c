import BraceScript.Proofs.Simulation.Match
import BraceScript.Proofs.Simulation.Reachable
import BraceScript.Store.Handle

/-!
# Files in states that stand for each other

A file that a program can no longer reach is closed. In states that stand for each other the same files can be
reached, so the same files are closed.

* `Bond.Names`       cells that name the same
* `Match.live`       what can be reached stands for something that can be reached, or is inert
* `Match.settle`, `Match.load`, ...   files are flushed, closed and read alike
-/

namespace BraceScript

namespace Bond

variable {B : Bond} {w w' : World} {c c' d d' : Cell}

/-! ## cells -/

theorem Val.cell? {v v' : Value} (hv : B.Val v v') : Option.Rel B.Same v.cell? v'.cell? := by
  cases hv with
  | list h => exact .some (.list h)
  | dict h => exact .some (.dict h)
  | tuple h => exact .some (.tuple h)
  | function h => exact .some (.function h)
  | callable h => exact .some (.callable h)
  | file n => exact .some (.file n)
  | _ => exact .none

theorem Vals.cells {vs vs' : List Value} (h : B.Vals vs vs') :
    List.Forall₂ B.Same (vs.filterMap Value.cell?) (vs'.filterMap Value.cell?) := by
  induction h with
  | nil => exact .nil
  | cons hv _ ih =>
    rw [List.filterMap_cons, List.filterMap_cons]
    have hc := hv.cell?
    revert hc
    generalize Value.cell? _ = o
    generalize Value.cell? _ = o'
    rintro (hc | _)
    · exact .cons hc ih
    · exact ih

/-! ## what a cell names -/

variable (B) in
/-- cells that name the same, apart from those that lead nowhere -/
def Names (cs cs' : List Cell) : Prop :=
  (∀ d ∈ cs, B.Leads d ∨ ∃ d' ∈ cs', B.Same d d') ∧ ∀ d' ∈ cs', B.Leads' d' ∨ ∃ d ∈ cs, B.Same d d'

theorem Names.of_forall {cs cs' : List Cell} (h : List.Forall₂ B.Same cs cs') : B.Names cs cs' := by
  induction h with
  | nil => exact ⟨List.forall_mem_nil _, List.forall_mem_nil _⟩
  | @cons c c' cs cs' hc _ ih =>
    refine ⟨List.forall_mem_cons.mpr ⟨Or.inr ⟨c', List.mem_cons_self, hc⟩, fun d hd => ?_⟩,
      List.forall_mem_cons.mpr ⟨Or.inr ⟨c, List.mem_cons_self, hc⟩, fun d hd => ?_⟩⟩
    · exact (ih.1 d hd).imp_right fun ⟨d', hd', hs⟩ => ⟨d', List.mem_cons_of_mem _ hd', hs⟩
    · exact (ih.2 d hd).imp_right fun ⟨d', hd', hs⟩ => ⟨d', List.mem_cons_of_mem _ hd', hs⟩

theorem Names.append {cs cs' ds ds' : List Cell} (h : B.Names cs cs') (hd : B.Names ds ds') :
    B.Names (cs ++ ds) (cs' ++ ds') := by
  refine ⟨List.forall_mem_append.mpr ⟨fun c hc => ?_, fun c hc => ?_⟩,
    List.forall_mem_append.mpr ⟨fun c hc => ?_, fun c hc => ?_⟩⟩
  · exact (h.1 c hc).imp_right fun ⟨c', hc', hs⟩ => ⟨c', List.mem_append_left _ hc', hs⟩
  · exact (hd.1 c hc).imp_right fun ⟨c', hc', hs⟩ => ⟨c', List.mem_append_right _ hc', hs⟩
  · exact (h.2 c hc).imp_right fun ⟨c', hc', hs⟩ => ⟨c', List.mem_append_left _ hc', hs⟩
  · exact (hd.2 c hc).imp_right fun ⟨c', hc', hs⟩ => ⟨c', List.mem_append_right _ hc', hs⟩

theorem mem_cells {s : Scope} (hs : s.Distinct) {d : Cell} :
    d ∈ (s.vars.map Prod.snd).filterMap Value.cell? ↔ ∃ name v, s.find? name = some v ∧ v.cell? = some d := by
  constructor
  · intro hd
    obtain ⟨v, hv, hc⟩ := List.mem_filterMap.mp hd
    obtain ⟨⟨name, u⟩, hp, rfl⟩ := List.mem_map.mp hv
    exact ⟨name, u, lookup_of_mem hs hp, hc⟩
  · rintro ⟨name, v, hf, hc⟩
    exact List.mem_filterMap.mpr ⟨v, List.mem_map.mpr ⟨(name, v), mem_of_lookup hf, rfl⟩, hc⟩

theorem rel_some_left {α β : Type} {R : α → β → Prop} {o : Option α} {o' : Option β} (h : Option.Rel R o o')
    {x : α} (hx : o = some x) : ∃ y, o' = some y ∧ R x y := by
  subst hx
  cases h with
  | some h => exact ⟨_, rfl, h⟩

theorem rel_some_right {α β : Type} {R : α → β → Prop} {o : Option α} {o' : Option β} (h : Option.Rel R o o')
    {y : β} (hy : o' = some y) : ∃ x, o = some x ∧ R x y := by
  subst hy
  cases h with
  | some h => exact ⟨_, rfl, h⟩

section
variable {α β γ δ : Type} {R : α → β → Prop} {S : γ → δ → Prop} {xs : List α} {ys : List β}

theorem forall₂_map {f : α → γ} {g : β → δ} (hf : ∀ {x y}, R x y → S (f x) (g y))
    (h : List.Forall₂ R xs ys) : List.Forall₂ S (xs.map f) (ys.map g) :=
  List.forall₂_map_left_iff.mpr (List.forall₂_map_right_iff.mpr (h.imp fun _ _ => hf))

theorem forall₂_flatMap {f : α → List γ} {g : β → List δ} (hf : ∀ {x y}, R x y → List.Forall₂ S (f x) (g y))
    (h : List.Forall₂ R xs ys) : List.Forall₂ S (xs.flatMap f) (ys.flatMap g) := by
  induction h with
  | nil => exact .nil
  | cons hx _ ih =>
    rw [List.flatMap_cons, List.flatMap_cons]
    exact List.rel_append (hf hx) ih

end

namespace Match

variable (h : B.Match w w')
include h

theorem names_scope {i j : Nat} (hp : B.scopes.Pairs i j) :
    B.Names (w.next (.scope i)) (w'.next (.scope j)) := by
  have hs := h.scope hp
  constructor
  · intro d hd
    obtain ⟨name, v, hf, hc⟩ := (mem_cells hs.distinct).mp hd
    rcases hs.find name with hr | ⟨hn, ho, -⟩
    · obtain ⟨v', hf', hv⟩ := rel_some_left hr hf
      obtain ⟨d', hc', hd'⟩ := rel_some_left hv.cell? hc
      exact Or.inr ⟨d', (mem_cells hs.distinct').mpr ⟨name, v', hf', hc'⟩, hd'⟩
    · exact Or.inl (h.sound.own hn (ho.symm.trans hf) hc)
  · intro d' hd'
    obtain ⟨name, v', hf', hc'⟩ := (mem_cells hs.distinct').mp hd'
    rcases hs.find name with hr | ⟨hn, -, ho⟩
    · obtain ⟨v, hf, hv⟩ := rel_some_right hr hf'
      obtain ⟨d, hc, hd⟩ := rel_some_right hv.cell? hc'
      exact Or.inr ⟨d, (mem_cells hs.distinct).mpr ⟨name, v, hf, hc⟩, hd⟩
    · exact Or.inl (h.sound.own' hn (ho.symm.trans hf') hc')

/-- cells that stand for each other name cells that do, apart from those that lead nowhere -/
theorem names (hc : B.Same c c') : B.Names (w.next c) (w'.next c') := by
  cases hc with
  | list hp => exact .of_forall (Vals.cells (h.list hp))
  | dict hp =>
    refine .of_forall ?_
    exact List.rel_append (Vals.cells (h.dict hp).keys) (Vals.cells (h.dict hp).values)
  | tuple hp => exact .of_forall (Vals.cells (h.tuple hp))
  | @function i j hp =>
    refine .of_forall ?_
    have hf := h.functions.rel hp
    rw [World.next, World.next]
    revert hf
    generalize w.functions[i]? = o
    generalize w'.functions[j]? = o'
    rintro (hf | _)
    · exact .cons (.scope hf.scope) .nil
    · exact .nil
  | callable hp =>
    refine .of_forall ?_
    have ht := h.callable hp
    rw [World.next, World.next]
    revert ht
    generalize w.callable _ = t
    generalize w'.callable _ = t'
    intro ht
    cases ht with
    | constructor => exact .nil
    | method hf hv => exact .cons (.function hf) (Vals.cells (.cons hv .nil))
    | textMethod => exact .nil
    | listMethod m hl => exact .cons (.list hl) .nil
    | fileMethod m hv => exact Vals.cells (.cons hv .nil)
  | scope hp => exact h.names_scope hp
  | file n => exact .of_forall .nil

/-! ## what can be reached -/

theorem names_active : B.Names w.active w'.active := by
  obtain ⟨ds, ds', hds, ha, ha'⟩ := h.active
  rw [ha, ha']
  refine (Names.of_forall hds).append ⟨fun c hc => Or.inl ?_, fun c' hc' => Or.inl ?_⟩
  · exact Or.inr (Or.inr (Or.inr hc))
  · exact Or.inr (Or.inr (Or.inr (h.sound.base' hc')))

theorem roots : B.Names w.roots w'.roots := by
  have hfirst : List.Forall₂ B.Same [.scope w.globals, .list w.arguments] [.scope w'.globals, .list w'.arguments] :=
    .cons (.scope h.pairs_globals) (.cons (.list h.pairs_arguments) .nil)
  have hmethods : List.Forall₂ B.Same
      (w.classes.classes.flatMap fun p => p.2.methods.map fun q => Cell.function q.2)
      (w'.classes.classes.flatMap fun p => p.2.methods.map fun q => Cell.function q.2) :=
    forall₂_flatMap (fun hp => forall₂_map (fun hq => .function hq.2) hp.2.methods) h.classes
  exact ((Names.of_forall hfirst).append h.names_active).append (.of_forall hmethods)

theorem next_inert (hc : B.inert c) : w.next c = B.start.next c := by
  have hf := h.sound.frozen hc
  cases c with
  | dict i =>
    have hd : w.dict i = B.start.dict i := getD_congr (h.dicts.kept i hf.1 hf.2) _
    rw [World.next, World.next, hd]
  | callable i =>
    have hd : w.callable i = B.start.callable i := getD_congr (h.callables.kept i hf.1 hf.2) _
    rw [World.next, World.next, hd]
  | function i => rw [World.next, World.next, h.code i hf]
  | _ => cases hf

theorem next_inert' (hc : B.inert' c) : w'.next c = B.start'.next c := by
  have hf := h.sound.frozen' hc
  cases c with
  | dict j =>
    have hd : w'.dict j = B.start'.dict j := getD_congr (h.dicts.kept' j hf.1 hf.2) _
    rw [World.next, World.next, hd]
  | callable j =>
    have hd : w'.callable j = B.start'.callable j := getD_congr (h.callables.kept' j hf.1 hf.2) _
    rw [World.next, World.next, hd]
  | function j => rw [World.next, World.next, h.code' j hf]
  | _ => cases hf

omit h in
theorem live_globals (w : World) : w.Live (.scope w.globals) := .root List.mem_cons_self

omit h in
theorem live_arguments (w : World) : w.Live (.list w.arguments) :=
  .root (List.mem_cons_of_mem _ List.mem_cons_self)

omit h in
theorem live_active {w : World} (hc : c ∈ w.active) : w.Live c :=
  .root (List.mem_append_left _ (List.mem_cons_of_mem _ (List.mem_cons_of_mem _ hc)))

/-- the second run can reach what it holds, and what it has in a variable that it does not bind anew -/
theorem live_kept (hd : B.Kept' d') : w'.Live d' := by
  obtain ⟨ds, ds', -, -, ha'⟩ := h.active
  have hbase {c' : Cell} (hc : c' ∈ B.base') : w'.Live c' :=
    live_active (ha' ▸ List.mem_append_right ds' hc)
  rcases hd with hd | ⟨name, v, hn, ho, hv⟩
  · exact hbase hd
  · have hhome : w'.Live (.scope B.home') := by
      rcases (h.sound.pinned hn).2 with hg | hb
      · rw [hg, ← h.globals']
        exact live_globals w'
      · exact hbase hb
    have hfound : (w'.scope B.home').find? name = some v := (h.pinned hn).trans ho
    refine .next hhome (List.mem_filterMap.mpr ⟨v, List.mem_map.mpr ⟨(name, v), ?_, rfl⟩, hv⟩)
    exact mem_of_lookup hfound

/-- what can be reached is inert, or stands for something that can be reached -/
theorem live (hc : w.Live c) : B.inert c ∨ ∃ c', B.Same c c' ∧ w'.Live c' := by
  have hroot {d : Cell} (hd : B.Leads d) : B.inert d ∨ ∃ d', B.Same d d' ∧ w'.Live d' := by
    rcases hd with hd | rfl | rfl | hd
    · exact Or.inl hd
    · exact Or.inr ⟨_, .scope h.sound.globals, h.globals' ▸ live_globals w'⟩
    · exact Or.inr ⟨_, .list h.sound.arguments, h.arguments' ▸ live_arguments w'⟩
    · obtain ⟨d', hk, hs⟩ := h.sound.base hd
      exact Or.inr ⟨d', hs, h.live_kept hk⟩
  induction hc with
  | root hr =>
    rcases h.roots.1 _ hr with hl | ⟨d', hd', hs⟩
    · exact hroot hl
    · exact Or.inr ⟨d', hs, .root hd'⟩
  | next _ hd ih =>
    rcases ih with hi | ⟨c', hs, hl⟩
    · rw [h.next_inert hi] at hd
      exact hroot (h.sound.next hi hd)
    · rcases (h.names hs).1 _ hd with hl' | ⟨d', hd', hs'⟩
      · exact hroot hl'
      · exact Or.inr ⟨d', hs', .next hl hd'⟩

theorem live' (hc : w'.Live c') : B.inert' c' ∨ ∃ c, B.Same c c' ∧ w.Live c := by
  have hroot {d : Cell} (hd : B.Leads' d) : B.inert' d ∨ ∃ d', B.Same d' d ∧ w.Live d' := by
    rcases hd with hd | rfl | rfl | ⟨b, hb, hs⟩
    · exact Or.inl hd
    · exact Or.inr ⟨_, .scope h.sound.globals, h.globals ▸ live_globals w⟩
    · exact Or.inr ⟨_, .list h.sound.arguments, h.arguments ▸ live_arguments w⟩
    · obtain ⟨ds, ds', -, ha, -⟩ := h.active
      exact Or.inr ⟨b, hs, live_active (ha ▸ List.mem_append_right ds hb)⟩
  induction hc with
  | root hr =>
    rcases h.roots.2 _ hr with hl | ⟨d, hd, hs⟩
    · exact hroot hl
    · exact Or.inr ⟨d, hs, .root hd⟩
  | next _ hd ih =>
    rcases ih with hi | ⟨c, hs, hl⟩
    · rw [h.next_inert' hi] at hd
      exact hroot (h.sound.next' hi hd)
    · rcases (h.names hs).2 _ hd with hl' | ⟨d', hd', hs'⟩
      · exact hroot hl'
      · exact Or.inr ⟨d', hs', .next hl hd'⟩

theorem file_reached (i : Nat) :
    w.reached.contains (.file i) = w'.reached.contains (.file i) := by
  refine Bool.eq_iff_iff.mpr ?_
  rw [List.contains_iff_mem, List.contains_iff_mem, World.mem_reached, World.mem_reached]
  constructor
  · intro hl
    rcases h.live hl with hi | ⟨c', hs, hl'⟩
    · cases h.sound.frozen hi
    · cases hs
      exact hl'
  · intro hl
    rcases h.live' hl with hi | ⟨c, hs, hl'⟩
    · cases h.sound.frozen' hi
    · cases hs
      exact hl'

/-! ## files -/

theorem flush (cell : Nat) : B.Match (w.flush cell) (w'.flush cell) := by
  unfold World.flush
  rw [h.handle cell, h.disk]
  dsimp only
  split
  · exact h
  · exact h.setFiles rfl (by rw [h.handles])

theorem close (cell : Nat) : B.Match (w.close cell) (w'.close cell) := by
  have hf := h.flush cell
  unfold World.close
  exact hf.setFiles hf.disk (by rw [hf.handles])

theorem closeAll (cells : List Nat) :
    B.Match (cells.foldl World.close w) (cells.foldl World.close w') := by
  induction cells generalizing w w' with
  | nil => exact h
  | cons i cells ih => exact ih (h.close i)

theorem settle (key : String) : B.Match (w.settle key) (w'.settle key) := by
  have hw : w.waiting key = w'.waiting key := by
    unfold World.waiting World.handle
    rw [h.handles]
  have hk : ∀ cells : List Nat, (cells.filter fun i => !w.reached.contains (.file i)) =
      cells.filter fun i => !w'.reached.contains (.file i) := fun cells =>
    List.filter_congr fun i _ => by rw [h.file_reached i]
  unfold World.settle
  rw [hw]
  split
  · exact h
  · dsimp only
    rw [hk]
    exact h.closeAll _

theorem load (cell : Nat) : B.Match (w.load cell) (w'.load cell) := by
  have hf := (h.settle (w.handle cell).key).flush cell
  unfold World.load
  rw [← h.handle cell]
  dsimp only
  rw [← hf.handle cell, ← hf.disk]
  exact hf.setFiles rfl (by rw [hf.handles])

end Match

end Bond

end BraceScript
