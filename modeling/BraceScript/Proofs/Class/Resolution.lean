import BraceScript.Proofs.Exec.Run
import Mathlib.Logic.Relation

/-!
# Where an attribute is found

The search for an attribute goes through a class and its parents, depth first, and passes over a class
that it has already looked at. On every table, with parents that are missing, repeated or cyclic, it
ends, and it finds something exactly when a class that can be reached has it. Without a cycle the
classes that are passed over make no difference.

* `ClassTable.Parent`, `ClassTable.Reaches`   the links between classes
* `ClassTable.Searches`        the search as a relation, without a bound on its steps
* `ClassTable.Finds`           the recursion that passes over nothing
* `searches_searchFrom`, `Searches.searchFrom_eq`   the bound of the search is large enough
* `Searches.exists_owner`, `Searches.exhausted`     what is found, and what is looked at when nothing is
* `Searches.finds`             without a cycle both give the same
* `search_resolves`            the search is complete and ends
-/

namespace BraceScript

open Relation

/-! ## what a class has -/

namespace ClassInfo

/-- the names under which a class can have a method for an attribute, in the order of their trial -/
def methodKeys (className attr : String) : List String := [attr, className ++ "." ++ attr, "self." ++ attr]

def HasMethod (c : ClassInfo) (className attr : String) : Prop :=
  ∃ key ∈ methodKeys className attr, ∃ cell, (key, cell) ∈ c.methods

def HasField (c : ClassInfo) (attr : String) : Prop := ∃ value, (attr, value) ∈ c.fields

def method? (c : ClassInfo) (className attr : String) : Option Nat :=
  (methodKeys className attr).findSome? fun key => c.methods.lookup key

/-- what a class gives for an attribute: the first method that it has, and a field only without one -/
def Gives (c : ClassInfo) (className attr : String) : Found → Prop
  | .method cell => c.method? className attr = some cell
  | .field => ¬ c.HasMethod className attr ∧ c.HasField attr

variable {c : ClassInfo} {className attr : String}

theorem own?_eq : c.own? className attr =
    ((c.method? className attr).map Found.method <|>
      if c.fields.any (·.1 = attr) then some .field else none) := by
  unfold own? method? methodKeys
  cases h₁ : c.methods.lookup attr <;> cases h₂ : c.methods.lookup (className ++ "." ++ attr) <;>
    cases h₃ : c.methods.lookup ("self." ++ attr) <;> simp [h₁, h₂, h₃]

theorem method?_eq_none_iff : c.method? className attr = none ↔ ¬ c.HasMethod className attr := by
  rw [method?, List.findSome?_eq_none_iff]
  constructor
  · rintro h ⟨key, hk, cell, hm⟩
    have := List.lookup_eq_none_iff.1 (h key hk) (key, cell) hm
    simp at this
  · intro h key hk
    refine List.lookup_eq_none_iff.2 fun e he => ?_
    have hne : key ≠ e.1 := fun heq => h ⟨key, hk, e.2, heq ▸ he⟩
    simpa using hne

theorem any_fields_iff : c.fields.any (·.1 = attr) = true ↔ c.HasField attr := by
  simp [HasField]

theorem own?_eq_none_iff :
    c.own? className attr = none ↔ ¬ (c.HasMethod className attr ∨ c.HasField attr) := by
  rw [own?_eq, not_or, ← method?_eq_none_iff, ← any_fields_iff]
  cases c.method? className attr <;> simp

theorem gives_of_own? {f : Found} (h : c.own? className attr = some f) :
    c.Gives className attr f := by
  rw [own?_eq] at h
  cases hm : c.method? className attr with
  | some cell =>
    obtain rfl : Found.method cell = f := by simpa [hm] using h
    exact hm
  | none =>
    have hf : c.fields.any (·.1 = attr) = true ∧ Found.field = f := by simpa [hm] using h
    obtain ⟨hf, rfl⟩ := hf
    exact ⟨method?_eq_none_iff.1 hm, any_fields_iff.1 hf⟩

end ClassInfo

namespace ClassTable

/-! ## links between classes -/

/-- a registered class names another as its parent -/
def Parent (t : ClassTable) (child parent : String) : Prop :=
  ∃ c, t.find? child = some c ∧ parent ∈ c.parents.getD []

/-- a class is reached along parent links through registered classes -/
def Reaches (t : ClassTable) : String → String → Prop := ReflTransGen t.Parent

/-- no class is its own ancestor -/
def Acyclic (t : ClassTable) : Prop := ∀ name, ¬ TransGen t.Parent name name

/-- a class that has nothing for an attribute itself leaves it to a parent -/
def LeavesTo (t : ClassTable) (attr child parent : String) : Prop :=
  ∃ c, t.find? child = some c ∧ c.own? child attr = none ∧ parent ∈ c.parents.getD []

/-- classes with a rank that is lower at parents make no cycle -/
theorem acyclic_of_rank {t : ClassTable} (rank : String → Nat)
    (h : ∀ child parent, t.Parent child parent → rank parent < rank child) : t.Acyclic := by
  have hlt : ∀ {child other}, TransGen t.Parent child other → rank other < rank child := by
    intro child other path
    induction path with
    | single link => exact h _ _ link
    | tail _ link ih => exact Nat.lt_trans (h _ _ link) ih
  exact fun name path => Nat.lt_irrefl _ (hlt path)

/-- the search for an attribute in classes in order, when some are already looked at -/
inductive Searches (t : ClassTable) (attr : String) : List String → List String → Option Found → Prop
  | done {checked : List String} : Searches t attr [] checked none
  | seen {name : String} {todo checked : List String} {r : Option Found} (h : name ∈ checked)
      (rest : Searches t attr todo checked r) : Searches t attr (name :: todo) checked r
  | absent {name : String} {todo checked : List String} {r : Option Found} (h : name ∉ checked)
      (hn : t.find? name = none) (rest : Searches t attr todo checked r) :
      Searches t attr (name :: todo) checked r
  | owned {name : String} {todo checked : List String} {c : ClassInfo} {f : Found} (h : name ∉ checked)
      (hc : t.find? name = some c) (hf : c.own? name attr = some f) :
      Searches t attr (name :: todo) checked (some f)
  | parents {name : String} {todo checked : List String} {c : ClassInfo} {r : Option Found}
      (h : name ∉ checked) (hc : t.find? name = some c) (hf : c.own? name attr = none)
      (rest : Searches t attr (c.parents.getD [] ++ todo) (name :: checked) r) :
      Searches t attr (name :: todo) checked r

/-- the plain recursion: classes in order, each with its parents before the next -/
inductive Finds (t : ClassTable) (attr : String) : List String → Option Found → Prop
  | done : Finds t attr [] none
  | absent {name : String} {todo : List String} {r : Option Found} (hn : t.find? name = none)
      (rest : Finds t attr todo r) : Finds t attr (name :: todo) r
  | owned {name : String} {todo : List String} {c : ClassInfo} {f : Found} (hc : t.find? name = some c)
      (hf : c.own? name attr = some f) : Finds t attr (name :: todo) (some f)
  | inherited {name : String} {todo : List String} {c : ClassInfo} {f : Found}
      (hc : t.find? name = some c) (hf : c.own? name attr = none)
      (above : Finds t attr (c.parents.getD []) (some f)) : Finds t attr (name :: todo) (some f)
  | passed {name : String} {todo : List String} {c : ClassInfo} {r : Option Found}
      (hc : t.find? name = some c) (hf : c.own? name attr = none)
      (above : Finds t attr (c.parents.getD []) none) (rest : Finds t attr todo r) :
      Finds t attr (name :: todo) r

variable {t : ClassTable} {attr : String} {todo checked : List String} {name : String} {c : ClassInfo}

/-! ## the bound of the search -/

/-- the classes that are not yet looked at and their parents, counted -/
def pending : List (String × ClassInfo) → List String → Nat
  | [], _ => 0
  | (name, c) :: classes, checked =>
    (if checked.contains name then 0 else (c.parents.getD []).length + 1) + pending classes checked

theorem searchBound_eq (t : ClassTable) : t.searchBound = 2 + pending t.classes [] := by
  have h : ∀ (classes : List (String × ClassInfo)) (n : Nat),
      classes.foldl (fun n e => n + (e.2.parents.getD []).length + 1) n = n + pending classes [] := by
    intro classes
    induction classes with
    | nil => intro n; rfl
    | cons e classes ih =>
      intro n
      rw [List.foldl_cons, ih, pending, List.contains_nil, if_neg Bool.false_ne_true]
      omega
  exact h t.classes 2

theorem pending_cons_le (classes : List (String × ClassInfo)) (name : String) (checked : List String) :
    pending classes (name :: checked) ≤ pending classes checked := by
  induction classes with
  | nil => exact Nat.le_refl _
  | cons e classes ih =>
    rw [pending, pending, List.contains_cons]
    by_cases hk : checked.contains e.1 = true
    · rw [hk, Bool.or_true]
      omega
    · rw [if_neg hk]
      split <;> omega

/-- looking at a class pays for all its parents -/
theorem pending_cons_add_le {classes : List (String × ClassInfo)} (hc : classes.lookup name = some c)
    (h : name ∉ checked) :
    pending classes (name :: checked) + (c.parents.getD []).length + 1 ≤ pending classes checked := by
  induction classes with
  | nil => cases hc
  | cons e classes ih =>
    obtain ⟨k, i⟩ := e
    rw [List.lookup_cons] at hc
    rw [pending, pending, List.contains_cons]
    by_cases hn : name = k
    · -- the entry of the class itself is counted no more
      subst hn
      obtain rfl : i = c := by simpa using hc
      have hf : checked.contains name = false := by simpa using h
      have hle := pending_cons_le classes name checked
      rw [beq_self_eq_true, Bool.true_or, if_pos rfl, hf, if_neg Bool.false_ne_true]
      omega
    · have hle := ih (by simpa [beq_eq_false_iff_ne.2 hn] using hc)
      rw [beq_eq_false_iff_ne.2 (Ne.symm hn), Bool.false_or]
      omega

/-- a bound that is as large as the classes to look at and those that are left is large enough -/
theorem searches_searchFrom (n : Nat) (todo checked : List String)
    (hn : todo.length + pending t.classes checked ≤ n) :
    Searches t attr todo checked (t.searchFrom attr n todo checked) := by
  fun_induction searchFrom t attr n todo checked with
  | case1 todo checked =>
    obtain rfl : todo = [] := List.eq_nil_of_length_eq_zero (by omega)
    exact .done
  | case2 => exact .done
  | case3 n name todo checked h ih =>
    refine .seen (by simpa using h) (ih ?_)
    simp only [List.length_cons] at hn
    omega
  | case4 n name todo checked h hname ih =>
    refine .absent (by simpa using h) hname (ih ?_)
    simp only [List.length_cons] at hn
    omega
  | case5 n name todo checked h c hc f hf => exact .owned (by simpa using h) hc hf
  | case6 n name todo checked h c hc hf ih =>
    have hfresh : name ∉ checked := by simpa using h
    refine .parents hfresh hc hf (ih ?_)
    have := pending_cons_add_le hc hfresh
    simp only [List.length_cons, List.length_append] at hn ⊢
    omega

/-- what the relation gives is what the search gives, from every bound that is large enough -/
theorem Searches.searchFrom_eq {r : Option Found} (h : Searches t attr todo checked r) (n : Nat)
    (hn : todo.length + pending t.classes checked ≤ n) : t.searchFrom attr n todo checked = r := by
  induction h generalizing n with
  | done => cases n <;> rfl
  | seen h _ ih =>
    cases n with
    | zero => simp at hn
    | succ n =>
      rw [searchFrom, if_pos (by simpa using h)]
      exact ih n (by simp at hn; omega)
  | absent h hc _ ih =>
    cases n with
    | zero => simp at hn
    | succ n =>
      rw [searchFrom, if_neg (by simpa using h), hc]
      exact ih n (by simp at hn; omega)
  | owned h hc hf =>
    cases n with
    | zero => simp at hn
    | succ n =>
      rw [searchFrom, if_neg (by simpa using h), hc]
      simp only [hf]
  | parents h hc hf _ ih =>
    cases n with
    | zero => simp at hn
    | succ n =>
      rw [searchFrom, if_neg (by simpa using h), hc]
      simp only [hf]
      have := pending_cons_add_le hc h
      exact ih n (by simp at hn ⊢; omega)

theorem length_add_pending_le {n : Nat} (className : String) (hn : t.searchBound ≤ n) :
    [className].length + pending t.classes [] ≤ n := by
  rw [searchBound_eq] at hn
  rw [List.length_singleton]
  omega

/-! ## what is found -/

/-- what is found belongs to a class that is reached through classes that leave the attribute to it -/
theorem Searches.exists_owner {r : Option Found} {f : Found} (h : Searches t attr todo checked r)
    (hr : r = some f) : ∃ name ∈ todo, ∃ owner c, ReflTransGen (t.LeavesTo attr) name owner ∧
      t.find? owner = some c ∧ c.own? owner attr = some f := by
  induction h with
  | done => cases hr
  | seen _ _ ih =>
    obtain ⟨name, hm, found⟩ := ih hr
    exact ⟨name, List.mem_cons_of_mem _ hm, found⟩
  | absent _ _ _ ih =>
    obtain ⟨name, hm, found⟩ := ih hr
    exact ⟨name, List.mem_cons_of_mem _ hm, found⟩
  | @owned name _ _ c _ _ hc hf =>
    cases hr
    exact ⟨name, List.mem_cons_self, name, c, .refl, hc, hf⟩
  | @parents child _ _ _ _ _ hc hf _ ih =>
    obtain ⟨name, hm, owner, c, path, found⟩ := ih hr
    rcases List.mem_append.1 hm with hp | ht
    · exact ⟨child, List.mem_cons_self, owner, c, path.head ⟨_, hc, hf, hp⟩, found⟩
    · exact ⟨name, List.mem_cons_of_mem _ ht, owner, c, path, found⟩

/-- classes that have nothing for an attribute, with all their registered parents apart from those that are
still to be looked at -/
def Exhausted (t : ClassTable) (attr : String) (names todo : List String) : Prop :=
  ∀ name ∈ names, ∀ c, t.find? name = some c → c.own? name attr = none ∧
    ∀ parent ∈ c.parents.getD [], t.find? parent = none ∨ parent ∈ names ∨ parent ∈ todo

/-- a class that is looked at, or that is not registered, need not wait -/
theorem Exhausted.tail {names : List String} (hx : t.Exhausted attr names (name :: todo))
    (h : t.find? name = none ∨ name ∈ names) : t.Exhausted attr names todo := by
  intro child hm c hc
  obtain ⟨hf, hp⟩ := hx child hm c hc
  refine ⟨hf, fun parent hpar => ?_⟩
  rcases hp parent hpar with hnone | hin | hwait
  · exact .inl hnone
  · exact .inr (.inl hin)
  · rcases List.mem_cons.1 hwait with rfl | hwait
    · exact h.imp_right .inl
    · exact .inr (.inr hwait)

/-- a class that has nothing itself makes its parents wait -/
theorem Exhausted.parents {names : List String} (hx : t.Exhausted attr names (name :: todo))
    (hc : t.find? name = some c)
    (hf : c.own? name attr = none) : t.Exhausted attr (name :: names) (c.parents.getD [] ++ todo) := by
  intro child hm c' hc'
  rcases List.mem_cons.1 hm with rfl | hm
  · obtain rfl := Option.some.inj (hc.symm.trans hc')
    exact ⟨hf, fun parent hpar => .inr (.inr (List.mem_append_left _ hpar))⟩
  · obtain ⟨hf', hp⟩ := hx child hm c' hc'
    refine ⟨hf', fun parent hpar => (hp parent hpar).imp_right fun h => ?_⟩
    rcases h with hin | hwait
    · exact .inl (List.mem_cons_of_mem _ hin)
    · rcases List.mem_cons.1 hwait with rfl | hwait
      · exact .inl List.mem_cons_self
      · exact .inr (List.mem_append_right _ hwait)

/-- a search that finds nothing has looked at all there is -/
theorem Searches.exhausted {r : Option Found} (h : Searches t attr todo checked r) (hr : r = none)
    (hx : t.Exhausted attr checked todo) :
    ∃ names, (∀ name ∈ todo, t.find? name = none ∨ name ∈ names) ∧ checked ⊆ names ∧
      t.Exhausted attr names [] := by
  induction h with
  | done => exact ⟨_, by simp, List.Subset.refl _, hx⟩
  | seen h _ ih =>
    obtain ⟨names, ht, hs, hn⟩ := ih hr (hx.tail (.inr h))
    exact ⟨names, List.forall_mem_cons.2 ⟨.inr (hs h), ht⟩, hs, hn⟩
  | absent _ hc _ ih =>
    obtain ⟨names, ht, hs, hn⟩ := ih hr (hx.tail (.inl hc))
    exact ⟨names, List.forall_mem_cons.2 ⟨.inl hc, ht⟩, hs, hn⟩
  | owned => cases hr
  | parents _ hc hf _ ih =>
    obtain ⟨names, ht, hs, hn⟩ := ih hr (hx.parents hc hf)
    have hrest := fun name h => ht name (List.mem_append_right _ h)
    exact ⟨names, List.forall_mem_cons.2 ⟨.inr (hs List.mem_cons_self), hrest⟩,
      fun _ h => hs (List.mem_cons_of_mem _ h), hn⟩

/-- nothing that is reached from classes with nothing for an attribute has something for it -/
theorem Exhausted.own?_eq_none {names : List String} (hx : t.Exhausted attr names []) {owner : String}
    (hn : t.find? name = none ∨ name ∈ names) (path : t.Reaches name owner)
    (hc : t.find? owner = some c) : c.own? owner attr = none := by
  have howner : t.find? owner = none ∨ owner ∈ names := by
    clear hc
    induction path with
    | refl => exact hn
    | tail _ link ih =>
      obtain ⟨c, hc, hp⟩ := link
      rcases ih with hnone | hm
      · simp [hnone] at hc
      · have := (hx _ hm c hc).2 _ hp
        simpa using this
  rcases howner with hnone | hm
  · simp [hnone] at hc
  · exact (hx owner hm c hc).1

/-! ## the plain recursion -/

theorem Finds.unique {r r' : Option Found} (h : Finds t attr todo r) (h' : Finds t attr todo r') : r = r' := by
  -- a rule that is not the one of `h` disagrees with it on the class or on what its parents give
  induction h generalizing r' with
  | done => cases h'; rfl
  | absent hn _ ih =>
    cases h' with
    | absent _ rest => exact ih rest
    | _ => simp_all
  | owned hc hf => cases h' <;> simp_all
  | inherited hc hf _ ih =>
    cases h' with
    | inherited hc' _ above =>
      obtain rfl := Option.some.inj (hc.symm.trans hc')
      exact ih above
    | passed hc' _ above =>
      obtain rfl := Option.some.inj (hc.symm.trans hc')
      cases ih above
    | _ => simp_all
  | passed hc hf _ _ ihAbove ihRest =>
    cases h' with
    | inherited hc' _ above =>
      obtain rfl := Option.some.inj (hc.symm.trans hc')
      cases ihAbove above
    | passed _ _ _ rest => exact ihRest rest
    | _ => simp_all

/-- classes are looked at one after the other -/
theorem finds_append {xs ys : List String} {r : Option Found} (h : Finds t attr (xs ++ ys) r) :
    (∃ f, r = some f ∧ Finds t attr xs (some f)) ∨ Finds t attr xs none ∧ Finds t attr ys r := by
  induction xs with
  | nil => exact .inr ⟨.done, h⟩
  | cons name xs ih =>
    cases h with
    | absent hn rest =>
      rcases ih rest with ⟨f, hr, hf⟩ | ⟨hx, hy⟩
      · exact .inl ⟨f, hr, .absent hn hf⟩
      · exact .inr ⟨.absent hn hx, hy⟩
    | owned hc hf => exact .inl ⟨_, rfl, .owned hc hf⟩
    | inherited hc hf above => exact .inl ⟨_, rfl, .inherited hc hf above⟩
    | passed hc hf above rest =>
      rcases ih rest with ⟨f, hr, hf'⟩ | ⟨hx, hy⟩
      · exact .inl ⟨f, hr, .passed hc hf above hf'⟩
      · exact .inr ⟨.passed hc hf above hx, hy⟩

/-- a class that has nothing itself is its parents -/
theorem finds_of_parents {r : Option Found} (hc : t.find? name = some c) (hf : c.own? name attr = none)
    (h : Finds t attr (c.parents.getD [] ++ todo) r) : Finds t attr (name :: todo) r := by
  rcases finds_append h with ⟨f, rfl, above⟩ | ⟨above, rest⟩
  · exact .inherited hc hf above
  · exact .passed hc hf above rest

theorem Finds.cons_of_none {r : Option Found} (h : Finds t attr [name] none)
    (rest : Finds t attr todo r) : Finds t attr (name :: todo) r := by
  cases h with
  | absent hn _ => exact .absent hn rest
  | passed hc hf above _ => exact .passed hc hf above rest

/-- a class that is already looked at has nothing by the time that the search comes to it: this holds of
every class that the search comes to again, also from a parent of one that waits -/
def Settled (t : ClassTable) (attr : String) (checked todo : List String) : Prop :=
  ∀ name ∈ checked, ∀ before next after, todo = before ++ next :: after → t.Reaches next name →
    Finds t attr before none → Finds t attr [name] none

theorem Settled.tail (hs : t.Settled attr checked (name :: todo)) (h : Finds t attr [name] none) :
    t.Settled attr checked todo := by
  rintro earlier hm before next after rfl path hb
  exact hs earlier hm (name :: before) next after rfl path (h.cons_of_none hb)

theorem mem_or_eq_append {xs ys before after : List String} {next : String}
    (h : xs ++ ys = before ++ next :: after) :
    next ∈ xs ∨ ∃ mid, before = xs ++ mid ∧ ys = mid ++ next :: after := by
  rcases List.append_eq_append_iff.1 h with ⟨mid, hb, hy⟩ | ⟨mid, hx, hn⟩
  · exact .inr ⟨mid, hb, hy⟩
  · cases mid with
    | nil => exact .inr ⟨[], by simpa using hx.symm, hn.symm⟩
    | cons m mid =>
      obtain rfl : next = m := (List.cons.inj hn).1
      exact .inl (by simp [hx])

/-- without a cycle, the parents of a class lead to no class that is still looked at -/
theorem Settled.parents (hac : t.Acyclic) (hs : t.Settled attr checked (name :: todo))
    (hc : t.find? name = some c) (hf : c.own? name attr = none) :
    t.Settled attr (name :: checked) (c.parents.getD [] ++ todo) := by
  intro earlier hm before next after heq path hb
  rcases mem_or_eq_append heq with hp | ⟨mid, rfl, rfl⟩
  · have link : t.Parent name next := ⟨c, hc, hp⟩
    rcases List.mem_cons.1 hm with rfl | hm
    · exact absurd (TransGen.head' link path) (hac _)
    · exact hs earlier hm [] name todo rfl (path.head link) .done
  · rcases finds_append hb with ⟨f, hf, -⟩ | ⟨above, rest⟩
    · cases hf
    rcases List.mem_cons.1 hm with rfl | hm
    · exact .passed hc hf above .done
    · exact hs earlier hm (name :: mid) next after rfl path (.passed hc hf above rest)

/-- without a cycle, the classes that are passed over make no difference -/
theorem Searches.finds {r : Option Found} (hac : t.Acyclic) (h : Searches t attr todo checked r)
    (hs : t.Settled attr checked todo) : Finds t attr todo r := by
  induction h with
  | done => exact .done
  | @seen name todo _ _ h _ ih =>
    have hnone := hs name h [] name todo rfl .refl .done
    exact hnone.cons_of_none (ih (hs.tail hnone))
  | absent _ hn _ ih =>
    exact .absent hn (ih (hs.tail (.absent hn .done)))
  | owned _ hc hf => exact .owned hc hf
  | parents _ hc hf _ ih => exact finds_of_parents hc hf (ih (hs.parents hac hc hf))

/-! ## the search -/

theorem searches_search (className : String) :
    Searches t attr [className] [] (t.search className attr) :=
  searches_searchFrom _ _ _ (length_add_pending_le className (Nat.le_refl _))

/-- a class that leaves an attribute to another is linked to it -/
theorem reaches_of_leavesTo {owner : String} (h : ReflTransGen (t.LeavesTo attr) name owner) :
    t.Reaches name owner :=
  ReflTransGen.mono (p := t.Parent) (fun _ _ ⟨c, hc, _, hp⟩ => ⟨c, hc, hp⟩) _ _ h

/-- something is found exactly when a class that is reached has it -/
theorem isSome_search_iff (className : String) :
    (t.search className attr).isSome ↔ ∃ owner c, t.Reaches className owner ∧ t.find? owner = some c ∧
      (c.HasMethod owner attr ∨ c.HasField attr) := by
  constructor
  · intro h
    obtain ⟨f, hf⟩ := Option.isSome_iff_exists.1 h
    obtain ⟨name, hm, owner, c, path, hc, ho⟩ := (searches_search className).exists_owner hf
    obtain rfl := List.mem_singleton.1 hm
    refine ⟨owner, c, reaches_of_leavesTo path, hc, Classical.not_not.1 fun hno => ?_⟩
    rw [ClassInfo.own?_eq_none_iff.2 hno] at ho
    cases ho
  · rintro ⟨owner, c, path, hc, hhas⟩
    cases hr : t.search className attr with
    | some f => rfl
    | none =>
      obtain ⟨names, ht, -, hx⟩ :=
        (searches_search className).exhausted hr fun _ h => absurd h List.not_mem_nil
      have hown := hx.own?_eq_none (ht className List.mem_cons_self) path hc
      exact absurd hhas (ClassInfo.own?_eq_none_iff.1 hown)

theorem finds_search (hac : t.Acyclic) (className : String) :
    Finds t attr [className] (t.search className attr) :=
  (searches_search className).finds hac fun _ h => absurd h List.not_mem_nil

end ClassTable

/-! ## attributes of an instance -/

namespace Exec

theorem noMember_ne_ok (cell : Nat) (type : Value) (attr : String) (names : List String) (w : World) (v : Value)
    (u : World) : noMember cell type attr names w ≠ .ok v u := by
  intro h
  obtain ⟨_, _, _, h⟩ := bind_ok h
  obtain ⟨_, _, _, h⟩ := bind_ok h
  obtain ⟨_, _, _, h⟩ := bind_ok h
  cases h

/-- an instance that stands for no file has no attributes but those of its classes -/
theorem otherAttribute_ne_ok (cell : Nat) {type : Value} (htype : type ≠ .str "__file__") (attr : String)
    (w : World) (v : Value) (u : World) : otherAttribute cell type attr w ≠ .ok v u := by
  intro h
  obtain ⟨names, w', -, h⟩ := bind_ok h
  rw [if_neg htype] at h
  exact noMember_ne_ok _ _ _ _ _ _ _ h

theorem getAttribute_instance {w : World} {cell : Nat} {type : Value}
    (h : (w.dict cell).get? "__type__" = some type) (attr : String) :
    getAttribute (.dict cell) attr w = instanceAttribute cell type attr w := by
  rw [getAttribute, bind_run, get_run]
  simp only [h]

/-- an instance has an attribute exactly when the search in its class finds something -/
theorem getAttribute_ok_iff {w : World} {cell : Nat} {className : String} (attr : String)
    (htype : (w.dict cell).get? "__type__" = some (.str className)) (hfile : className ≠ "__file__") :
    (∃ v u, getAttribute (.dict cell) attr w = .ok v u) ↔ (w.classes.search className attr).isSome := by
  have hkey : w.unhashable? (.str className) = none := rfl
  rw [getAttribute_instance htype, instanceAttribute]
  simp only [checkKey, bind_run, get_run, hkey, pure_run]
  cases hs : w.classes.search className attr with
  | some f =>
    cases f with
    | method function => exact ⟨fun _ => rfl, fun _ => ⟨_, _, rfl⟩⟩
    | field => exact ⟨fun _ => rfl, fun _ => ⟨_, _, rfl⟩⟩
  | none =>
    have htype' : Value.str className ≠ .str "__file__" := by simpa using hfile
    simp only [Option.isSome_none, Bool.false_eq_true, iff_false]
    rintro ⟨v, u, h⟩
    exact otherAttribute_ne_ok cell htype' attr w v u h

end Exec

/-- The search for an attribute ends on every table: more steps than its bound change nothing. It finds
something exactly when a class that is reached from the first through registered classes has a method
or a field for it, and what it finds is what such a class gives, a method before a field, while all the
classes on the way there have nothing. Without a cycle it is the plain recursion from left to right. An
instance has the attribute exactly when something is found. -/
theorem search_resolves (t : ClassTable) (className attr : String) :
    (∀ n, t.searchBound ≤ n → t.searchFrom attr n [className] [] = t.search className attr) ∧
    ((t.search className attr).isSome ↔ ∃ owner c, t.Reaches className owner ∧
      t.find? owner = some c ∧ (c.HasMethod owner attr ∨ c.HasField attr)) ∧
    (∀ f, t.search className attr = some f → ∃ owner c,
      ReflTransGen (t.LeavesTo attr) className owner ∧ t.find? owner = some c ∧ c.Gives owner attr f) ∧
    (t.Acyclic → ∀ r, t.Finds attr [className] r ↔ r = t.search className attr) ∧
    (∀ (w : World) (cell : Nat), w.classes = t →
      (w.dict cell).get? "__type__" = some (.str className) → className ≠ "__file__" →
      ((∃ v u, Exec.getAttribute (.dict cell) attr w = .ok v u) ↔ (t.search className attr).isSome)) := by
  refine ⟨fun n hn => ?_, ClassTable.isSome_search_iff className, fun f hf => ?_, fun hac r => ⟨?_, ?_⟩, ?_⟩
  · exact (ClassTable.searches_search className).searchFrom_eq n (ClassTable.length_add_pending_le _ hn)
  · obtain ⟨name, hm, owner, c, path, hc, ho⟩ := (ClassTable.searches_search className).exists_owner hf
    obtain rfl := List.mem_singleton.1 hm
    exact ⟨owner, c, path, hc, ClassInfo.gives_of_own? ho⟩
  · intro h
    exact h.unique (ClassTable.finds_search hac className)
  · rintro rfl
    exact ClassTable.finds_search hac className
  · rintro w cell rfl htype hfile
    exact Exec.getAttribute_ok_iff attr htype hfile

/-- a class with two parents that share a parent: the shared one comes before the second -/
def diamond : ClassTable where
  classes := [("Top", ⟨[("x", none)], none, [("self.m", 0)]⟩), ("Left", ⟨[], some ["Top", "Lost"], []⟩),
    ("Right", ⟨[("x", none)], some ["Top"], [("Right.m", 1), ("m", 2)]⟩),
    ("Low", ⟨[], some ["Left", "Right"], []⟩)]

/-- two classes that are each other's parents -/
def knot : ClassTable where
  classes := [("Top", ⟨[], some ["Low", "Top"], []⟩), ("Low", ⟨[("x", none)], some ["Lost", "Top"], [("x", 0)]⟩)]

theorem acyclic_diamond : diamond.Acyclic := by
  refine ClassTable.acyclic_of_rank (fun name => if name = "Low" then 2 else if name = "Left" then 1 else
    if name = "Right" then 1 else 0) ?_
  rintro child parent ⟨c, hc, hp⟩
  obtain ⟨before, after, hl, -⟩ := List.lookup_eq_some_iff.1 hc
  have hm : (child, c) ∈ diamond.classes := by simp [hl]
  simp only [diamond, List.mem_cons, Prod.mk.injEq, List.not_mem_nil, or_false] at hm
  rcases hm with ⟨rfl, rfl⟩ | ⟨rfl, rfl⟩ | ⟨rfl, rfl⟩ | ⟨rfl, rfl⟩
  · simp at hp
  · obtain rfl | rfl : parent = "Top" ∨ parent = "Lost" := by simpa using hp
    all_goals decide
  · obtain rfl : parent = "Top" := by simpa using hp
    decide
  · obtain rfl | rfl : parent = "Left" ∨ parent = "Right" := by simpa using hp
    all_goals decide

theorem search_resolves_diamond :
    diamond.Finds "m" ["Low"] (some (.method 0)) ∧
    ((∃ v u, Exec.getAttribute (.dict 0) "x"
      { (default : World) with classes := knot, dicts := #[⟨[(.str "__type__", .str "Top")]⟩] } = .ok v u) ↔
      (knot.search "Top" "x").isSome) ∧
    knot.search "Top" "x" = some (.method 0) := by
  refine ⟨?_, ?_, by decide⟩
  · exact ((search_resolves diamond "Low" "m").2.2.2.1 acyclic_diamond _).2 (by decide)
  · exact (search_resolves knot "Top" "x").2.2.2.2 _ 0 rfl (by decide) (by decide)

end BraceScript
