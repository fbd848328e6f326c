import BraceScript.Store.Reach

/-!
# What a program can reach

The search for the cells that a program can reach finds all of them and no others: it takes at most one step
for each root and for each cell that is named by another.

* `World.Live`      a cell that can be reached from the variables of a program
* `mem_reached`     the search finds the live cells
-/

namespace BraceScript

/-- a cell that can be reached from the variables of a program -/
inductive World.Live (w : World) : Cell → Prop
  | root {c : Cell} (h : c ∈ w.roots) : Live w c
  | next {c d : Cell} (h : Live w c) (hd : d ∈ w.next c) : Live w d

namespace World

variable {w : World}

/-! ## what is left to search -/

theorem next_of_not_mem_cells {c : Cell} (h : c ∉ w.cells) : w.next c = [] := by
  have hm : ∀ {f : Nat → Cell} {n size : Nat}, f n ∉ (List.range size).map f → size ≤ n := by
    intro f n size hf
    exact Nat.le_of_not_lt fun hn => hf (List.mem_map_of_mem (List.mem_range.mpr hn))
  simp only [cells, List.mem_append, not_or] at h
  obtain ⟨⟨⟨⟨⟨hl, hd⟩, ht⟩, hf⟩, hc⟩, hs⟩ := h
  cases c with
  | list n => rw [next, list, Array.getD_eq_getD_getElem?, Array.getElem?_eq_none (hm hl)]; rfl
  | dict n => rw [next, dict, Array.getD_eq_getD_getElem?, Array.getElem?_eq_none (hm hd)]; rfl
  | tuple n => rw [next, tuple, Array.getD_eq_getD_getElem?, Array.getElem?_eq_none (hm ht)]; rfl
  | function n => rw [next, Array.getElem?_eq_none (hm hf)]; rfl
  | callable n => rw [next, callable, Array.getD_eq_getD_getElem?, Array.getElem?_eq_none (hm hc)]; rfl
  | scope n => rw [next, scope, Array.getD_eq_getD_getElem?, Array.getElem?_eq_none (hm hs)]; rfl
  | file n => rfl

theorem named_cons_le (c : Cell) (seen cs : List Cell) : w.named (c :: seen) cs ≤ w.named seen cs := by
  induction cs with
  | nil => exact Nat.le_refl _
  | cons d cs ih =>
    rw [named, named, List.contains_cons]
    refine Nat.add_le_add ?_ ih
    cases d == c with
    | true => exact Nat.zero_le _
    | false => exact Nat.le_refl _

/-- what a cell names does not count any more once it is seen -/
theorem named_cons {c : Cell} {seen : List Cell} (hs : seen.contains c = false) {cs : List Cell}
    (hc : c ∈ cs) : w.named (c :: seen) cs + (w.next c).length ≤ w.named seen cs := by
  induction cs with
  | nil => cases hc
  | cons d cs ih =>
    rw [named, named, List.contains_cons]
    rcases List.mem_cons.mp hc with rfl | hc
    · have hle := named_cons_le (w := w) c seen cs
      rw [hs, beq_self_eq_true, Bool.true_or, if_pos rfl, if_neg Bool.false_ne_true]
      omega
    · have hle := ih hc
      cases d == c with
      | true =>
        rw [Bool.true_or, if_pos rfl]
        omega
      | false =>
        rw [Bool.false_or]
        omega

theorem named_seen {c : Cell} {seen : List Cell} (hs : seen.contains c = false) :
    w.named (c :: seen) w.cells + (w.next c).length ≤ w.named seen w.cells := by
  by_cases hc : c ∈ w.cells
  · exact named_cons hs hc
  · rw [next_of_not_mem_cells hc]
    exact named_cons_le c seen w.cells

/-! ## the search -/

theorem live_of_mem_reachFrom {fuel : Nat} {todo seen : List Cell} (ht : ∀ c ∈ todo, w.Live c)
    (hs : ∀ c ∈ seen, w.Live c) : ∀ c ∈ w.reachFrom fuel todo seen, w.Live c := by
  fun_induction w.reachFrom fuel todo seen with
  | case1 => exact hs
  | case2 => exact hs
  | case3 fuel c todo seen h ih => exact ih (fun d hd => ht d (List.mem_cons_of_mem _ hd)) hs
  | case4 fuel c todo seen h ih =>
    have hc := ht c List.mem_cons_self
    refine ih (fun d hd => ?_) (List.forall_mem_cons.mpr ⟨hc, hs⟩)
    rcases List.mem_append.mp hd with hd | hd
    · exact .next hc hd
    · exact ht d (List.mem_cons_of_mem _ hd)

/-- With enough fuel, a search ends with a set of cells that holds what it started with and all that the
cells in it name. -/
theorem reachFrom_closed {fuel : Nat} {todo seen : List Cell}
    (hf : todo.length + w.named seen w.cells < fuel)
    (hi : ∀ c ∈ seen, ∀ d ∈ w.next c, d ∈ seen ∨ d ∈ todo) :
    (∀ c ∈ seen ++ todo, c ∈ w.reachFrom fuel todo seen) ∧
      ∀ c ∈ w.reachFrom fuel todo seen, ∀ d ∈ w.next c, d ∈ w.reachFrom fuel todo seen := by
  fun_induction w.reachFrom fuel todo seen with
  | case1 => exact absurd hf (Nat.not_lt_zero _)
  | case2 seen =>
    rw [List.append_nil]
    exact ⟨fun _ hc => hc, fun c hc d hd => (hi c hc d hd).resolve_right List.not_mem_nil⟩
  | case3 fuel c todo seen h ih =>
    have hc : c ∈ seen := List.contains_iff_mem.mp h
    rw [List.length_cons] at hf
    obtain ⟨h1, h2⟩ := ih (by omega) fun x hx d hd => by
      rcases hi x hx d hd with h | h
      · exact Or.inl h
      · rcases List.mem_cons.mp h with rfl | h
        · exact Or.inl hc
        · exact Or.inr h
    refine ⟨fun x hx => h1 x ?_, h2⟩
    rcases List.mem_append.mp hx with hx | hx
    · exact List.mem_append_left _ hx
    · rcases List.mem_cons.mp hx with rfl | hx
      · exact List.mem_append_left _ hc
      · exact List.mem_append_right _ hx
  | case4 fuel c todo seen h ih =>
    rw [Bool.not_eq_true] at h
    have hn := named_seen (w := w) h
    rw [List.length_cons] at hf
    obtain ⟨h1, h2⟩ := ih (by rw [List.length_append]; omega) fun x hx d hd => by
      rcases List.mem_cons.mp hx with rfl | hx
      · exact Or.inr (List.mem_append_left _ hd)
      · rcases hi x hx d hd with h | h
        · exact Or.inl (List.mem_cons_of_mem _ h)
        · rcases List.mem_cons.mp h with rfl | h
          · exact Or.inl List.mem_cons_self
          · exact Or.inr (List.mem_append_right _ h)
    refine ⟨fun x hx => h1 x ?_, h2⟩
    rcases List.mem_append.mp hx with hx | hx
    · exact List.mem_append_left _ (List.mem_cons_of_mem _ hx)
    · rcases List.mem_cons.mp hx with rfl | hx
      · exact List.mem_append_left _ List.mem_cons_self
      · exact List.mem_append_right _ (List.mem_append_right _ hx)

/-- **The search finds the cells that a program can reach.** -/
theorem mem_reached {c : Cell} : c ∈ w.reached ↔ w.Live c := by
  constructor
  · exact live_of_mem_reachFrom (fun _ h => .root h) (List.forall_mem_nil _) c
  · have hb : w.roots.length + w.named [] w.cells < w.searchBound := Nat.lt_succ_self _
    obtain ⟨h1, h2⟩ := reachFrom_closed hb (List.forall_mem_nil _)
    intro h
    induction h with
    | root h => exact h1 _ h
    | next _ hd ih => exact h2 _ ih _ hd

end World

end BraceScript
