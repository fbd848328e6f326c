import BraceScript.Eval.Equality
import BraceScript.Proofs.Exec.Showable
import Mathlib.Data.Finset.Card
import Mathlib.Data.Finset.Prod

/-!
# Deep enough

Containers are compared and shown to a bounded depth, which depends on how many there are. The bound cannot
be seen: to compare deeper, or to show deeper, gives the same. A comparison looks at pairs of containers,
and what it says of a pair it keeps when it looks deeper; there are only so many pairs that it can change
its mind about. What is being shown is not shown again inside itself.

* `iterate_stable`     a function refined step by step on finitely many arguments stays as it is
* `equalWith_deep`, `lessWith_deep`        comparing deeper
* `shownWith_deep`, `showableWith_deep`    showing deeper
* `showable_push_empty`   showing with one more empty dictionary
-/

namespace BraceScript

/-! ## refinement on finitely many arguments -/

section
variable {α β : Type}

/-- what is settled after some steps stays as it is in the next one -/
theorem settled_succ {f : Nat → α → β} {step : (α → β) → α → β} {bottom : β}
    (hf : ∀ n, f (n + 1) = step (f n)) (hz : ∀ x, f 0 x = bottom)
    (mono : ∀ g g' : α → β, (∀ x, g x ≠ bottom → g' x = g x) →
      ∀ x, step g x ≠ bottom → step g' x = step g x) (n : Nat) (x : α) (hx : f n x ≠ bottom) :
    f (n + 1) x = f n x := by
  induction n generalizing x with
  | zero => exact absurd (hz x) hx
  | succ n ih =>
    rw [hf n] at hx
    have h := mono (f n) (f (n + 1)) ih x hx
    rw [hf (n + 1), h, hf n]

/-- A function that is refined step by step, on arguments of a finite set only, is the same after any two numbers
of steps that are more than the set has members. -/
theorem iterate_stable (f : Nat → α → β) (step : (α → β) → α → β) (bottom : β) (s : Finset α)
    (hf : ∀ n, f (n + 1) = step (f n)) (hz : ∀ x, f 0 x = bottom)
    (mono : ∀ g g' : α → β, (∀ x, g x ≠ bottom → g' x = g x) →
      ∀ x, step g x ≠ bottom → step g' x = step g x)
    (out : ∀ g g' x, x ∉ s → step g x = step g' x) {n k : Nat} (hn : s.card < n) (hk : s.card < k) :
    f n = f k := by
  classical
  let settled := fun i => s.filter fun x => f (i + 1) x ≠ bottom
  have keeps := settled_succ hf hz mono
  -- a step that changes the function settles an argument that was not settled before
  have gains : ∀ i, f (i + 2) ≠ f (i + 1) → (settled i).card < (settled (i + 1)).card := by
    intro i h
    obtain ⟨x, hx⟩ := Function.ne_iff.mp h
    have hs : x ∈ s := by
      by_contra hs
      exact hx (by rw [hf (i + 1), hf i]; exact out _ _ x hs)
    have hb : f (i + 1) x = bottom := by
      by_contra hb
      exact hx (keeps (i + 1) x hb)
    refine Finset.card_lt_card ((Finset.ssubset_iff_of_subset ?_).mpr ⟨x, ?_, ?_⟩)
    · intro y hy
      obtain ⟨hy, hn⟩ := Finset.mem_filter.mp hy
      exact Finset.mem_filter.mpr ⟨hy, by rw [keeps (i + 1) y hn]; exact hn⟩
    · exact Finset.mem_filter.mpr ⟨hs, fun h => hx (h.trans hb.symm)⟩
    · exact fun hy => (Finset.mem_filter.mp hy).2 hb
  have grows : ∀ i, f (i + 2) = f (i + 1) ∨ i + 1 ≤ (settled (i + 1)).card := by
    intro i
    by_cases h : f (i + 2) = f (i + 1)
    · exact Or.inl h
    · right
      have hg := gains i h
      induction i with
      | zero => omega
      | succ i ih =>
        have hi : f (i + 2) ≠ f (i + 1) := fun he =>
          h ((hf (i + 2)).trans ((congrArg step he).trans (hf (i + 1)).symm))
        have := ih hi (gains i hi)
        omega
  have fixed : f (s.card + 2) = f (s.card + 1) := by
    rcases grows s.card with h | h
    · exact h
    · have hle : (settled (s.card + 1)).card ≤ s.card := Finset.card_filter_le _ _
      omega
  have stable : ∀ n, s.card < n → f n = f (s.card + 1) := fun n hn => by
    induction hn with
    | refl => rfl
    | step _ ih => rw [hf, ih, ← hf, fixed]
  exact (stable n hn).trans (stable k hk).symm

end

/-! ## pairs of containers -/

namespace World

variable (w : World)

def containerPairs : Finset (Value × Value) :=
  (Finset.range w.lists.size ×ˢ Finset.range w.lists.size).image (fun p => (.list p.1, .list p.2)) ∪
    (Finset.range w.dicts.size ×ˢ Finset.range w.dicts.size).image (fun p => (.dict p.1, .dict p.2)) ∪
    (Finset.range w.tuples.size ×ˢ Finset.range w.tuples.size).image (fun p => (.tuple p.1, .tuple p.2))

theorem card_containerPairs : w.containerPairs.card < w.depth := by
  have h (n : Nat) (f : Nat × Nat → Value × Value) :
      ((Finset.range n ×ˢ Finset.range n).image f).card ≤ n * n := by
    refine Finset.card_image_le.trans ?_
    rw [Finset.card_product, Finset.card_range]
  have h1 := h w.lists.size fun p => (.list p.1, .list p.2)
  have h2 := h w.dicts.size fun p => (.dict p.1, .dict p.2)
  have h3 := h w.tuples.size fun p => (.tuple p.1, .tuple p.2)
  refine Nat.lt_succ_of_le ((Finset.card_union_le _ _).trans ?_)
  exact Nat.add_le_add ((Finset.card_union_le _ _).trans (Nat.add_le_add h1 h2)) h3

theorem lt_size_of_getD {α : Type} {a : Array α} {i : Nat} {d : α} (h : a.getD i d ≠ d) : i < a.size := by
  by_contra hs
  refine h ?_
  rw [Array.getD_eq_getD_getElem?, Array.getElem?_eq_none (Nat.le_of_not_lt hs), Option.getD_none]

variable {w} {as bs : List Value} {a b : Value} {eq : Value → Value → Bool}

theorem getD_of_not_mem {α : Type} {a : Array α} {i j : Nat} {d : α}
    (h : (i, j) ∉ Finset.range a.size ×ˢ Finset.range a.size) : a.getD i d = d ∨ a.getD j d = d := by
  by_contra hn
  rw [not_or] at hn
  exact h (Finset.mem_product.mpr ⟨Finset.mem_range.mpr (lt_size_of_getD hn.1),
    Finset.mem_range.mpr (lt_size_of_getD hn.2)⟩)

theorem list_of_not_mem {i j : Nat} (h : (Value.list i, Value.list j) ∉ w.containerPairs) :
    w.list i = #[] ∨ w.list j = #[] :=
  getD_of_not_mem fun hp => h (Finset.mem_union_left _ (Finset.mem_union_left _ (Finset.mem_image_of_mem _ hp)))

theorem dict_of_not_mem {i j : Nat} (h : (Value.dict i, Value.dict j) ∉ w.containerPairs) :
    w.dict i = .empty ∨ w.dict j = .empty :=
  getD_of_not_mem fun hp => h (Finset.mem_union_left _ (Finset.mem_union_right _ (Finset.mem_image_of_mem _ hp)))

theorem tuple_of_not_mem {i j : Nat} (h : (Value.tuple i, Value.tuple j) ∉ w.containerPairs) :
    w.tuple i = [] ∨ w.tuple j = [] :=
  getD_of_not_mem fun hp => h (Finset.mem_union_right _ (Finset.mem_image_of_mem _ hp))

/-! ## equality -/

theorem pairwise_mono {eq' : Value → Value → Bool} (h : ∀ a b, eq a b = true → eq' a b = true)
    (hp : pairwise eq as bs = true) : pairwise eq' as bs = true := by
  fun_induction pairwise eq as bs with
  | case1 => rfl
  | case2 a as b bs ih =>
    rw [Bool.and_eq_true, Bool.or_eq_true] at hp
    rw [pairwise, Bool.and_eq_true, Bool.or_eq_true]
    exact ⟨hp.1.imp_right (h a b), ih hp.2⟩
  | case3 => cases hp

theorem pairwise_nil (eq eq' : Value → Value → Bool) (h : as = [] ∨ bs = []) :
    pairwise eq as bs = pairwise eq' as bs := by
  rcases h with rfl | rfl
  · cases bs <;> rfl
  · cases as <;> rfl

theorem holdsEntry_mono {eq' : Value → Value → Bool} (h : ∀ a b, eq a b = true → eq' a b = true) {d : Dict}
    {p : Value × Value} (hp : holdsEntry eq d p = true) : holdsEntry eq' d p = true := by
  unfold holdsEntry at hp ⊢
  split
  · rename_i hn
    rw [hn] at hp
    cases hp
  · rename_i u hu
    rw [hu, Bool.or_eq_true] at hp
    exact Bool.or_eq_true_iff.mpr (hp.imp_right (h _ _))

/-- what is equal with an equality of items is equal with one that holds more often -/
theorem equalStep_mono {eq' : Value → Value → Bool} (h : ∀ a b, eq a b = true → eq' a b = true)
    (he : w.equalStep eq a b = true) : w.equalStep eq' a b = true := by
  unfold equalStep at he ⊢
  cases ha : a.numeric? with
  | some x => cases hb : b.numeric? <;> simpa only [ha, hb] using he
  | none =>
    cases hb : b.numeric? with
    | some y => simpa only [ha, hb] using he
    | none =>
      simp only [ha, hb] at he ⊢
      split at he
      · exact pairwise_mono h he
      · exact pairwise_mono h he
      · simp only [Bool.and_eq_true, List.all_eq_true] at he ⊢
        exact ⟨he.1, fun p hp => holdsEntry_mono h (he.2 p hp)⟩
      · simpa only using he

/-- the items do not matter where one side has none -/
theorem equalStep_outside (eq eq' : Value → Value → Bool) (h : (a, b) ∉ w.containerPairs) :
    w.equalStep eq a b = w.equalStep eq' a b := by
  unfold equalStep
  cases a.numeric? with
  | some x => cases b.numeric? <;> rfl
  | none =>
    cases b.numeric? with
    | some y => rfl
    | none =>
      dsimp only
      split
      · exact pairwise_nil _ _ ((list_of_not_mem h).imp (congrArg Array.toList) (congrArg Array.toList))
      · exact pairwise_nil _ _ (tuple_of_not_mem h)
      · rcases dict_of_not_mem h with hd | hd
        · rw [hd]
          rfl
        · rw [hd, Dict.size]
          cases (w.dict _).entries <;> rfl
      · rfl

/-- **Equality is found at the depth that is looked at**: to look deeper gives the same. -/
theorem equalWith_deep {n : Nat} (hn : w.depth ≤ n) : w.equalWith n = w.equal := by
  have h := iterate_stable (fun n p => w.equalWith n p.1 p.2)
    (fun g p => w.equalStep (fun a b => g (a, b)) p.1 p.2) false w.containerPairs (fun _ => rfl) (fun _ => rfl) ?_
    (fun _ _ _ hp => equalStep_outside _ _ hp) (w.card_containerPairs.trans_le hn) w.card_containerPairs
  · funext a b
    exact congrFun h (a, b)
  · intro g g' hg p hp
    have hm : ∀ a b, g (a, b) = true → g' (a, b) = true := fun a b he => by
      rw [hg (a, b) (by rw [he]; exact Bool.noConfusion), he]
    have ht := Bool.eq_true_of_not_eq_false hp
    rw [ht, equalStep_mono hm ht]

/-! ## order -/

theorem lessItems_mono {lt lt' : Value → Value → Except Fault Bool}
    (h : ∀ a b, lt a b ≠ .ok false → lt' a b = lt a b)
    (hp : lessItems eq lt as bs ≠ .ok false) : lessItems eq lt' as bs = lessItems eq lt as bs := by
  fun_induction lessItems eq lt as bs with
  | case1 a as b bs he ih =>
    rw [lessItems, if_pos he]
    exact ih hp
  | case2 a as b bs he =>
    rw [lessItems, if_neg he]
    exact h a b hp
  | case3 => rfl
  | case4 as => cases as <;> rfl

theorem lessItems_nil (eq : Value → Value → Bool) (lt lt' : Value → Value → Except Fault Bool)
    (h : as = [] ∨ bs = []) : lessItems eq lt as bs = lessItems eq lt' as bs := by
  rcases h with rfl | rfl
  · cases bs <;> rfl
  · cases as <;> rfl

theorem lessStep_mono {lt lt' : Value → Value → Except Fault Bool}
    (h : ∀ a b, lt a b ≠ .ok false → lt' a b = lt a b)
    (hp : w.lessStep lt a b ≠ .ok false) : w.lessStep lt' a b = w.lessStep lt a b := by
  unfold lessStep at hp ⊢
  split
  · rfl
  · rename_i hn
    split at hp
    · rename_i ha hb
      exact absurd hb (hn _ _ ha)
    · split
      · rfl
      · exact lessItems_mono h hp
      · exact lessItems_mono h hp
      · rfl

theorem lessStep_outside (lt lt' : Value → Value → Except Fault Bool)
    (h : (a, b) ∉ w.containerPairs) : w.lessStep lt a b = w.lessStep lt' a b := by
  unfold lessStep
  split
  · rfl
  · split
    · rfl
    · exact lessItems_nil _ _ _ ((list_of_not_mem h).imp (congrArg Array.toList) (congrArg Array.toList))
    · exact lessItems_nil _ _ _ (tuple_of_not_mem h)
    · rfl

/-- **Order is found at the depth that is looked at.** -/
theorem lessWith_deep {n : Nat} (hn : w.depth ≤ n) : w.lessWith n = w.less := by
  have h := iterate_stable (fun n p => w.lessWith n p.1 p.2)
    (fun g p => w.lessStep (fun a b => g (a, b)) p.1 p.2) (.ok false) w.containerPairs (fun _ => rfl)
    (fun _ => rfl) (fun _ _ hg _ hp => lessStep_mono (fun a b => hg (a, b)) hp)
    (fun _ _ _ hp => lessStep_outside _ _ hp) (w.card_containerPairs.trans_le hn) w.card_containerPairs
  funext a b
  exact congrFun h (a, b)

/-! ## texts -/

/-- how many of the first cells are not among those seen -/
def unseen (n : Nat) (seen : List Nat) : Nat := ((List.range n).filter fun i => !seen.contains i).length

theorem unseen_le (n : Nat) (seen : List Nat) : unseen n seen ≤ n := by
  have h := List.length_filter_le (fun i => !seen.contains i) (List.range n)
  rwa [List.length_range] at h

theorem unseen_cons {n i : Nat} {seen : List Nat} (hi : i < n) (hs : seen.contains i = false) :
    unseen n (i :: seen) < unseen n seen := by
  have hf : (List.range n).filter (fun j => !(i :: seen).contains j) =
      ((List.range n).filter fun j => !seen.contains j).filter fun j => j != i := by
    rw [List.filter_filter]
    refine List.filter_congr fun j _ => ?_
    rw [List.contains_cons, Bool.not_or]
    rfl
  rw [unseen, hf, unseen, List.length_filter_lt_length_iff_exists]
  refine ⟨i, List.mem_filter.mpr ⟨List.mem_range.mpr hi, by rw [hs]; rfl⟩, ?_⟩
  rw [bne_self_eq_false]
  exact Bool.false_ne_true

variable (w) in
/-- how many containers can still be shown inside others -/
def hidden (inside : Shown) : Nat :=
  unseen w.lists.size inside.lists + unseen w.dicts.size inside.dicts + unseen w.tuples.size inside.tuples

theorem hidden_lt_depth (inside : Shown) : w.hidden inside < w.depth := by
  have h1 := unseen_le w.lists.size inside.lists
  have h2 := unseen_le w.dicts.size inside.dicts
  have h3 := unseen_le w.tuples.size inside.tuples
  have hs (n : Nat) : n ≤ n * n := Nat.le_mul_self n
  have h4 := hs w.lists.size
  have h5 := hs w.dicts.size
  have h6 := hs w.tuples.size
  unfold hidden depth
  omega

section
variable {cell : Nat} {inside : Shown}

theorem hidden_list (hi : cell < w.lists.size) (hs : ¬ inside.lists.contains cell = true) :
    w.hidden { inside with lists := cell :: inside.lists } < w.hidden inside :=
  Nat.add_lt_add_right (Nat.add_lt_add_right (unseen_cons hi (Bool.eq_false_of_not_eq_true hs)) _) _

theorem hidden_dict (hi : cell < w.dicts.size) (hs : ¬ inside.dicts.contains cell = true) :
    w.hidden { inside with dicts := cell :: inside.dicts } < w.hidden inside :=
  Nat.add_lt_add_right (Nat.add_lt_add_left (unseen_cons hi (Bool.eq_false_of_not_eq_true hs)) _) _

theorem hidden_tuple (hi : cell < w.tuples.size) (hs : ¬ inside.tuples.contains cell = true) :
    w.hidden { inside with tuples := cell :: inside.tuples } < w.hidden inside :=
  Nat.add_lt_add_left (unseen_cons hi (Bool.eq_false_of_not_eq_true hs)) _

end

theorem shownWith_eq (n k : Nat) (inside : Shown) (hn : w.hidden inside < n) (hk : w.hidden inside < k) :
    w.shownWith n inside = w.shownWith k inside := by
  induction n generalizing k inside with
  | zero => exact absurd hn (Nat.not_lt_zero _)
  | succ n ih =>
    obtain ⟨k, rfl⟩ : ∃ j, k = j + 1 := ⟨k - 1, by omega⟩
    have deeper {inside' : Shown} (h : w.hidden inside' < w.hidden inside) :
        w.shownWith n inside' = w.shownWith k inside' := ih k inside' (by omega) (by omega)
    funext v
    cases v with
    | list cell =>
      rw [shownWith, shownWith]
      split
      · rfl
      · rename_i hs
        by_cases hc : w.list cell = #[]
        · rw [hc]
          rfl
        · dsimp only
          rw [deeper (hidden_list (lt_size_of_getD hc) hs)]
    | dict cell =>
      rw [shownWith, shownWith]
      split
      · rfl
      · rename_i hs
        by_cases hc : w.dict cell = .empty
        · rw [hc]
          rfl
        · dsimp only
          rw [deeper (hidden_dict (lt_size_of_getD hc) hs)]
    | tuple cell =>
      rw [shownWith, shownWith]
      split
      · rfl
      · rename_i hs
        by_cases hc : w.tuple cell = []
        · rw [hc]
          rfl
        · dsimp only
          rw [deeper (hidden_tuple (lt_size_of_getD hc) hs)]
    | _ => rfl

/-- **The text of a value is found at the depth that is looked at.** -/
theorem shownWith_deep {n : Nat} (hn : w.depth ≤ n) : w.shownWith n ⟨[], [], []⟩ = w.shown :=
  shownWith_eq _ _ _ ((hidden_lt_depth _).trans_le hn) (hidden_lt_depth _)

theorem showableWith_deep {n : Nat} (hn : w.depth ≤ n) : w.showableWith n ⟨[], [], []⟩ = w.showable :=
  funext fun v => (w.textIf_shownWith n _ v).unique (shownWith_deep hn ▸ w.textIf_shown v)

/-! ## the same containers -/

/-- what a value holds decides whether it has a text -/
theorem showableWith_congr {w w' : World} (hl : w.list = w'.list) (hd : w.dict = w'.dict) (ht : w.tuple = w'.tuple)
    (n : Nat) (inside : Shown) : w.showableWith n inside = w'.showableWith n inside := by
  induction n generalizing inside with
  | zero => rfl
  | succ n ih =>
    funext v
    cases v with
    | list cell => rw [showableWith, showableWith, hl, ih]
    | dict cell =>
      rw [showableWith, showableWith, hd]
      simp only [ih]
    | tuple cell => rw [showableWith, showableWith, ht, ih]
    | _ => rfl

theorem showable_congr {w w' : World} (hl : w'.list = w.list) (hd : w'.dict = w.dict) (ht : w'.tuple = w.tuple)
    (hdepth : w.depth ≤ w'.depth) : w'.showable = w.showable :=
  (showableWith_congr hl hd ht w'.depth ⟨[], [], []⟩).trans (showableWith_deep hdepth)

/-- a new dictionary without entries changes no text -/
theorem showable_push_empty (w : World) :
    ({ w with dicts := w.dicts.push .empty } : World).showable = w.showable := by
  refine showable_congr rfl (funext fun cell => ?_) rfl ?_
  · simp only [dict, Array.getD_eq_getD_getElem?, Array.getElem?_push]
    split
    · rename_i hc
      rw [hc, Array.getElem?_eq_none (Nat.le_refl _)]
      rfl
    · rfl
  · have hsize : w.dicts.size ≤ (w.dicts.push .empty).size := by
      rw [Array.size_push]
      exact Nat.le_succ _
    exact Nat.add_le_add_right (Nat.add_le_add_right (Nat.add_le_add_left (Nat.mul_le_mul hsize hsize) _) _) _

end World

end BraceScript
