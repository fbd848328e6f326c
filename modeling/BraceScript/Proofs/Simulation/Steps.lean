import BraceScript.Proofs.Simulation.Basic

/-!
# The operations on values simulate themselves

Each operation that calls back no machine, on values that stand for each other.

* `sim_openFile`, `sim_readLines`, ...      files
* `sim_element`, `sim_itemsOr`, ...         collections
* `sim_formatTemplate`, `sim_arith`, ...    templates and arithmetic
* `sim_callListMethod`, `sim_getAttribute`, ...   methods and attributes
-/

namespace BraceScript

open Exec

namespace Bond

variable {B : Bond} {α β : Type} {R : α → β → Prop} {w w' : World} {i j : Nat} {v v' u u' : Value} {xs : List α}
  {ys : List β}

theorem vals_map {f : α → Value} (h : ∀ x, B.Val (f x) (f x)) : B.Vals (xs.map f) (xs.map f) := by
  refine List.forall₂_same.mpr fun v hv => ?_
  obtain ⟨x, -, rfl⟩ := List.mem_map.mp hv
  exact h x

/-! ## files -/

theorem sim_newHandle (h : Handle) : B.Sim B.Val (newHandle h) (newHandle h) := by
  refine sim_modifyGet fun hw => ?_
  rw [hw.handles]
  exact ⟨.file _, hw.setFiles hw.disk rfl⟩

theorem sim_settle (key : String) : B.Sim Eq (modify (·.settle key) : Exec Unit) (modify (·.settle key)) :=
  sim_modify fun hw => hw.settle key

variable (cell : Nat)

theorem sim_load : B.Sim Eq (modify (·.load cell) : Exec Unit) (modify (·.load cell)) :=
  sim_modify fun hw => hw.load cell

theorem sim_toRead (path : String) :
    B.Sim Eq (query fun w => w.disk.toRead path) (query fun w => w.disk.toRead path) :=
  sim_query fun {_ w'} hw => .known (known_toRead w'.disk path) (by rw [hw.disk])

theorem sim_toWrite (path : String) :
    B.Sim Eq (query fun w => w.disk.toWrite path) (query fun w => w.disk.toWrite path) :=
  sim_query fun {_ w'} hw => .known (known_toWrite w'.disk path) (by rw [hw.disk])

theorem sim_prepareFile (path : String) (m : FileMode) :
    B.Sim Eq (prepareFile path m) (prepareFile path m) := by
  unfold prepareFile
  refine sim_ite ?_ (sim_get fun hw => ?_)
  · exact sim_then (sim_toRead path) fun key => sim_then (sim_settle key) fun _ => sim_pure rfl
  · rw [hw.disk]
    refine sim_ite (sim_fault rfl) (sim_then (sim_toWrite path) ?_)
    rintro ⟨key, present⟩
    refine sim_check rfl (sim_then (sim_settle key) fun _ => sim_ite ?_ (sim_pure rfl))
    refine sim_then (sim_modify fun hu => ?_) fun _ => sim_pure rfl
    exact hu.setFiles (by rw [hu.disk]) hu.handles

theorem pathOf_eq (hv : B.Val v v') : pathOf v = pathOf v' := by cases hv <;> rfl

theorem sim_openFile (hv : B.Val v v') (hu : B.Val u u') : B.Sim B.Val (openFile v u) (openFile v' u') := by
  cases hu with
  | str modeText =>
    have hm : B.Sim Eq (ofExcept (FileMode.ofText modeText)) (ofExcept (FileMode.ofText modeText)) :=
      sim_ofExcept (.known (known_fileMode modeText) rfl)
    unfold openFile
    dsimp only
    rw [hv.numeric?]
    rw [pathOf_eq hv]
    have hpath : B.Sim Eq (ofExcept (pathOf v')) (ofExcept (pathOf v')) :=
      sim_ofExcept (.known (known_pathOf v') rfl)
    refine sim_ite (sim_then hpath fun _ => ?_) ?_
    all_goals
      refine sim_then hm fun m => sim_then hpath fun name => sim_check rfl (sim_check rfl ?_)
      refine sim_then (sim_prepareFile name m) fun key => sim_get fun hw => ?_
      rw [hw.disk]
      exact sim_newHandle _
  | _ => exact sim_fault rfl

theorem sim_checkOpen : B.Sim Eq (checkOpen cell) (checkOpen cell) := by
  refine sim_get fun hw => ?_
  rw [hw.handle cell]
  exact sim_ite (sim_fault rfl) (sim_pure rfl)

theorem sim_checkReadable : B.Sim Eq (checkReadable cell) (checkReadable cell) := by
  refine sim_then (sim_checkOpen cell) fun _ => sim_get fun hw => ?_
  rw [hw.handle cell]
  exact sim_ite (sim_fault rfl) (sim_pure rfl)

theorem sim_takeUnread (rest : List Char) : B.Sim Eq (takeUnread cell rest) (takeUnread cell rest) :=
  sim_modifyHandle cell _

theorem sim_readRest : B.Sim B.Val (readRest cell) (readRest cell) := by
  refine sim_then (sim_checkReadable cell) fun _ => sim_then (sim_load cell) fun _ => sim_get fun hw => ?_
  rw [hw.handle cell]
  exact sim_then (sim_takeUnread cell []) fun _ => sim_pure (.str _)

theorem sim_readLine : B.Sim Eq (readLine cell) (readLine cell) := by
  refine sim_then (sim_checkReadable cell) fun _ => sim_get fun hw => ?_
  rw [hw.handle cell]
  refine sim_ite (sim_then (sim_load cell) fun _ => ?_) ?_
  all_goals
    refine sim_get fun hu => ?_
    rw [hu.handle cell]
    exact sim_then (sim_takeUnread cell _) fun _ => sim_pure rfl

theorem sim_readLines : B.Sim B.Vals (readLines cell) (readLines cell) := by
  refine sim_then (sim_checkReadable cell) fun _ => sim_then (sim_load cell) fun _ => sim_get fun hw => ?_
  rw [hw.handle cell]
  refine sim_then (sim_takeUnread cell []) fun _ => sim_pure ?_
  exact vals_map fun _ => .str _

theorem sim_writeText (hv : B.Val v v') : B.Sim B.Val (writeText cell v) (writeText cell v') := by
  cases hv with
  | str s =>
    refine sim_then (sim_checkOpen cell) fun _ => sim_get fun hw => ?_
    rw [hw.handle cell]
    exact sim_check rfl (sim_then (sim_modifyHandle cell _) fun _ => sim_pure (.int _))
  | _ => exact sim_fault rfl

theorem sim_closeFile : B.Sim B.Val (closeFile cell) (closeFile cell) := by
  refine sim_get fun hw => ?_
  rw [hw.handle cell]
  refine sim_ite ?_ (sim_pure .null)
  exact sim_then (sim_modify fun hu => hu.close cell) fun _ => sim_pure .null

theorem sim_readWhole (path : String) : B.Sim Eq (readWhole path) (readWhole path) := by
  refine sim_then (sim_toRead path) fun key => sim_then (sim_settle key) fun _ => sim_get fun hw => ?_
  rw [hw.disk]
  exact sim_pure rfl

/-! ## collections -/

/-- both are there, or none of them -/
@[elab_as_elim]
theorem rel_elim {motive : Option α → Option β → Prop} {o : Option α} {o' : Option β}
    (h : Option.Rel R o o') (none : motive none none) (some : ∀ {x y}, R x y → motive (some x) (some y)) :
    motive o o' := by
  cases h with
  | none => exact none
  | some h => exact some h

theorem getD_null {o o' : Option Value} (h : Option.Rel B.Val o o') : B.Val (o.getD .null) (o'.getD .null) := by
  cases h with
  | none => exact .null
  | some h => exact h

theorem forall₂_get? (h : List.Forall₂ R xs ys) (n : Nat) : Option.Rel R xs[n]? ys[n]? := by
  induction h generalizing n with
  | nil => exact .none
  | cons hx _ ih =>
    cases n with
    | zero => exact .some hx
    | succ n =>
      rw [List.getElem?_cons_succ, List.getElem?_cons_succ]
      exact ih n

section
variable {a a' : Array Value}

theorem Vals.size (h : B.Vals a.toList a'.toList) : a.size = a'.size := by
  have hl := h.length_eq
  rwa [Array.length_toList, Array.length_toList] at hl

theorem Vals.item (h : B.Vals a.toList a'.toList) (n : Nat) : Option.Rel B.Val a[n]? a'[n]? := by
  rw [← Array.getElem?_toList, ← Array.getElem?_toList]
  exact forall₂_get? h n

end

theorem sim_length (hv : B.Val v v') : B.Sim Eq (length v) (length v') := by
  refine sim_get fun hw => ?_
  cases hv with
  | str s => exact sim_pure rfl
  | list hp => exact sim_pure (Vals.size (hw.list hp))
  | dict hp => exact sim_pure (hw.dict hp).size_eq
  | tuple hp => exact sim_pure (hw.tuple hp).length_eq
  | _ => exact sim_fault rfl

theorem sim_indexOf (hv : B.Val v v') (hu : B.Val u u') : B.Sim Eq (indexOf v u) (indexOf v' u') := by
  unfold indexOf
  rw [hu.int?]
  split
  · exact sim_ite (sim_pure rfl) (sim_fault rfl)
  · rw [hu.kindName]
    cases hv <;> exact sim_fault rfl

theorem placeOf_rel (h : List.Forall₂ R xs ys) (n : Int) :
    Option.Rel R ((placeOf xs.length n).bind (xs[·]?)) ((placeOf ys.length n).bind (ys[·]?)) := by
  rw [h.length_eq]
  cases placeOf ys.length n with
  | none => exact .none
  | some k => exact forall₂_get? h k

theorem sim_element (hv : B.Val v v') (hu : B.Val u u') : B.Sim B.Val (element v u) (element v' u') := by
  have hi := sim_indexOf hv hu
  cases hv with
  | str s =>
    refine sim_then hi fun n => ?_
    dsimp only
    split
    · exact sim_pure (.str _)
    · exact sim_fault rfl
  | list hp =>
    refine sim_then hi fun n => sim_get fun hw => ?_
    have hr := placeOf_rel (hw.list hp) n
    simp only [Array.length_toList, Array.getElem?_toList] at hr
    dsimp only
    exact rel_elim hr (sim_fault rfl) fun h => sim_pure h
  | tuple hp =>
    refine sim_then hi fun n => sim_get fun hw => ?_
    dsimp only
    exact rel_elim (placeOf_rel (hw.tuple hp) n) (sim_fault rfl) fun h => sim_pure h
  | dict hp =>
    refine sim_bind (sim_findKey hp hu) fun hr => ?_
    cases hr with
    | none => exact sim_fail (.missingKey hu)
    | some h => exact sim_pure h
  | _ => exact sim_fault rfl

theorem Vals.setIfInBounds {a a' : Array Value} (h : B.Vals a.toList a'.toList) (n : Nat) (hv : B.Val v v') :
    B.Vals (a.setIfInBounds n v).toList (a'.setIfInBounds n v').toList := by
  rw [Array.toList_setIfInBounds, Array.toList_setIfInBounds]
  generalize a.toList = xs at h
  generalize a'.toList = ys at h
  induction h generalizing n with
  | nil => exact .nil
  | cons hx hxs ih =>
    cases n with
    | zero => exact .cons hv hxs
    | succ n => exact .cons hx (ih n)

theorem sim_putElement {x x' : Value} (hv : B.Val v v') (hu : B.Val u u') (hx : B.Val x x') :
    B.Sim Eq (putElement v u x) (putElement v' u' x') := by
  have hi := sim_indexOf hv hu
  cases hv with
  | list hp =>
    refine sim_then hi fun n => sim_get fun hw => ?_
    rw [Vals.size (hw.list hp)]
    split
    · exact sim_modifyList hp fun ha => ha.setIfInBounds _ hx
    · exact sim_fault rfl
  | dict hp => exact sim_putKey hp hu hx
  | _ => exact sim_fault rfl

theorem sim_sliceBound (hv : B.Val v v') : B.Sim Eq (sliceBound v) (sliceBound v') := by
  cases hv with
  | bool b => exact sim_pure rfl
  | int n => exact sim_pure rfl
  | null => exact sim_pure rfl
  | _ => exact sim_fault rfl

theorem forall₂_filterMap {γ : Type} {f : γ → Option α} {g : γ → Option β} (h : ∀ x, Option.Rel R (f x) (g x))
    (xs : List γ) : List.Forall₂ R (xs.filterMap f) (xs.filterMap g) := by
  induction xs with
  | nil => exact .nil
  | cons x xs ih =>
    rw [List.filterMap_cons, List.filterMap_cons]
    exact rel_elim (h x) ih fun hx => .cons hx ih

theorem sim_slice {x x' y y' : Value} (hv : B.Val v v') (hu : B.Val u u') (hx : B.Val x x') (hy : B.Val y y') :
    B.Sim B.Val (slice v u x y) (slice v' u' x' y') := by
  refine sim_then (sim_sliceBound hy) fun step => sim_check rfl ?_
  refine sim_then (sim_sliceBound hu) fun start => sim_then (sim_sliceBound hx) fun stop => ?_
  cases hv with
  | str s => exact sim_pure (.str _)
  | list hp =>
    refine sim_get fun hw => ?_
    have ha := hw.list hp
    refine sim_newList ?_
    rw [Vals.size ha]
    exact forall₂_filterMap (fun n : Int => Vals.item ha n.toNat) _
  | _ => exact sim_fault rfl

theorem sim_itemsOr {f : Fault} (hf : f.isPlain = true) (hv : B.Val v v') :
    B.Sim B.Vals (itemsOr f v) (itemsOr f v') := by
  refine sim_get fun hw => ?_
  cases hv with
  | str s => exact sim_pure (vals_map fun _ => .str _)
  | list hp => exact sim_pure (hw.list hp)
  | dict hp => exact sim_pure (hw.dict hp).keys
  | tuple hp => exact sim_pure (hw.tuple hp)
  | file cell => exact sim_readLines cell
  | _ => exact sim_fault hf

theorem sim_items (hv : B.Val v v') : B.Sim B.Vals (items v) (items v') := by
  unfold items
  rw [hv.kindName]
  exact sim_itemsOr rfl hv

theorem sim_contains (hv : B.Val v v') (hu : B.Val u u') : B.Sim Eq (contains v u) (contains v' u') := by
  have hany {c c' : Value} (hc : B.Val c c') : B.Sim Eq
      (itemsOr (.notContainer c.kindName) c >>= fun all => get >>= fun w => pure (all.any (w.matching · u)))
      (itemsOr (.notContainer c'.kindName) c' >>= fun all => get >>= fun w => pure (all.any (w.matching · u'))) := by
    rw [hc.kindName]
    refine sim_bind (sim_itemsOr rfl hc) fun hall => sim_get fun hw => sim_pure ?_
    exact any_congr (fun hx => hw.matching hx hu) hall
  have hc := hany hv
  cases hv with
  | str s =>
    cases hu with
    | str part => exact sim_pure rfl
    | _ => exact sim_fault rfl
  | dict hp =>
    refine sim_bind (sim_findKey hp hu) fun hr => sim_pure ?_
    cases hr <;> rfl
  | _ => exact hc

/-! ## going through a collection -/

section
variable {γ δ : Type} {S : γ → δ → Prop} {f : γ → Value → Exec γ} {g : δ → Value → Exec δ} {c : γ} {d : δ}
  (hf : ∀ {c d x y}, S c d → B.Val x y → B.Sim S (f c x) (g d y))
include hf

theorem sim_foldList (hp : B.lists.Pairs i j) (fuel n : Nat) (hc : S c d) :
    B.Sim S (foldList i f fuel n c) (foldList j g fuel n d) := by
  induction fuel generalizing n c d with
  | zero => exact sim_throw .exhausted
  | succ fuel ih =>
    refine sim_get fun hw => ?_
    exact rel_elim (Vals.item (hw.list hp) n) (sim_pure hc) fun hx => sim_bind (hf hc hx) fun hd => ih (n + 1) hd

theorem sim_foldDict (hp : B.dicts.Pairs i j) (size fuel n : Nat) (hc : S c d) :
    B.Sim S (foldDict i size f fuel n c) (foldDict j size g fuel n d) := by
  induction fuel generalizing n c d with
  | zero => exact sim_throw .exhausted
  | succ fuel ih =>
    refine sim_get fun hw => ?_
    dsimp only
    rw [(hw.dict hp).size_eq]
    refine sim_check rfl ?_
    exact rel_elim (forall₂_get? (hw.dict hp) n) (sim_pure hc) fun hx =>
      sim_bind (hf hc hx.1) fun hd => ih (n + 1) hd

theorem sim_foldFile (cell fuel : Nat) (hc : S c d) :
    B.Sim S (foldFile cell f fuel c) (foldFile cell g fuel d) := by
  induction fuel generalizing c d with
  | zero => exact sim_throw .exhausted
  | succ fuel ih =>
    refine sim_then (sim_readLine cell) fun line => sim_ite (sim_pure hc) ?_
    exact sim_bind (hf hc (.str line)) fun hd => ih hd

theorem sim_foldItemsOr {fault : Fault} (hfault : fault.isPlain = true) (fuel : Nat) (hv : B.Val v v')
    (hc : S c d) : B.Sim S (foldItemsOr fault fuel v f c) (foldItemsOr fault fuel v' g d) := by
  have hall := sim_bind (sim_itemsOr hfault hv) fun h => sim_foldlM h hf hc
  cases hv with
  | list hp => exact sim_foldList hf hp fuel 0 hc
  | dict hp =>
    refine sim_get fun hw => ?_
    rw [(hw.dict hp).size_eq]
    exact sim_foldDict hf hp _ fuel 0 hc
  | file cell => exact sim_foldFile hf cell fuel hc
  | _ => exact hall

theorem sim_foldItems (fuel : Nat) (hv : B.Val v v') (hc : S c d) :
    B.Sim S (foldItems fuel v f c) (foldItems fuel v' g d) := by
  unfold foldItems
  rw [hv.kindName]
  exact sim_foldItemsOr hf rfl fuel hv hc

end

/-! ## templates -/

variable (B) in
/-- arguments of a template that stand for each other -/
structure Filling (a a' : TemplateArgs) : Prop where
  items : B.Vals a.items a'.items
  mapping : Option.Rel B.Val a.mapping a'.mapping

section
variable {a a' : TemplateArgs}

theorem Filling.isNone (h : B.Filling a a') : a.mapping.isNone = a'.mapping.isNone := by
  obtain ⟨items, mapping⟩ := a
  obtain ⟨items', mapping'⟩ := a'
  rcases h.mapping with hm | _ <;> rfl

theorem sim_nextArgument (h : B.Filling a a') :
    B.Sim (fun p p' => B.Val p.1 p'.1 ∧ B.Filling p.2 p'.2) (nextArgument a) (nextArgument a') := by
  obtain ⟨items, mapping⟩ := a
  obtain ⟨items', mapping'⟩ := a'
  obtain ⟨hi, hm⟩ := h
  cases hi with
  | nil => exact sim_fault rfl
  | cons hv hvs => exact sim_pure ⟨hv, hvs, hm⟩

theorem sim_nextInteger (h : B.Filling a a') :
    B.Sim (fun p p' => p.1 = p'.1 ∧ B.Filling p.2 p'.2) (nextInteger a) (nextInteger a') := by
  refine sim_bind (sim_nextArgument h) ?_
  rintro ⟨v, a⟩ ⟨v', a'⟩ ⟨hv, ha⟩
  dsimp only at hv ⊢
  rw [hv.int?]
  split
  · exact sim_pure ⟨rfl, ha⟩
  · exact sim_fault rfl

theorem sim_templateEntry (h : B.Filling a a') (key : String) :
    B.Sim B.Val (templateEntry a key) (templateEntry a' key) := by
  obtain ⟨items, mapping⟩ := a
  obtain ⟨items', mapping'⟩ := a'
  rcases h.mapping with hm | _
  · cases hm with
    | dict hp =>
      refine sim_bind (sim_findKey hp (.str key)) fun hr => ?_
      cases hr with
      | none => exact sim_fail (.missingKey (.str key))
      | some h => exact sim_pure h
    | _ => exact sim_fault rfl
  · exact sim_fault rfl

theorem sim_decimalInteger (letter : Char) (hv : B.Val v v') :
    B.Sim Eq (decimalInteger letter v) (decimalInteger letter v') := by
  unfold decimalInteger
  rw [hv.numeric?, hv.kindName]
  split
  · exact sim_pure rfl
  · split
    · exact sim_pure rfl
    · exact sim_ite (sim_fault rfl) (sim_fault rfl)
  · exact sim_fault rfl

theorem sim_formatDouble (hv : B.Val v v') : B.Sim Eq (formatDouble v) (formatDouble v') := by
  unfold formatDouble
  rw [hv.numeric?, hv.kindName]
  split
  · exact sim_ite (sim_fault rfl) (sim_pure rfl)
  · exact sim_pure rfl
  · exact sim_fault rfl

theorem sim_character (n : Nat) : B.Sim Eq (character n) (character n) := sim_ite (sim_pure rfl) sim_giveUp

theorem sim_formatCharacter (hv : B.Val v v') : B.Sim Eq (formatCharacter v) (formatCharacter v') := by
  cases hv with
  | str s => exact sim_ite (sim_pure rfl) (sim_fault rfl)
  | bool b => exact sim_ite (sim_fault rfl) (sim_character _)
  | int n => exact sim_ite (sim_fault rfl) (sim_character _)
  | _ => exact sim_fault rfl

theorem sim_convert (d : Directive) (letter : Char) (position : Nat) (hv : B.Val v v') :
    B.Sim Eq (convert d letter position v) (convert d letter position v') := by
  have hint (n : Int) : B.Sim Eq (ofExcept (d.integer letter n)) (ofExcept (d.integer letter n)) :=
    sim_ofExcept (.known (known_integer d letter n) rfl)
  unfold convert
  refine sim_ite ?_ (sim_ite ?_ (sim_ite ?_ (sim_ite ?_ (sim_ite ?_ (sim_fault rfl)))))
  · refine sim_ite (sim_then (sim_plain hv) fun s => ?_) (sim_then (sim_shown hv) fun s => ?_)
    all_goals exact sim_pure rfl
  · exact sim_then (sim_decimalInteger letter hv) hint
  · rw [hv.int?, hv.kindName]
    split
    · exact hint _
    · exact sim_fault rfl
  · exact sim_then (sim_formatDouble hv) fun _ => sim_pure rfl
  · exact sim_then (sim_formatCharacter hv) fun _ => sim_pure rfl

variable (B) in
/-- what is left of a template: the same parts and text, with arguments that stand for each other -/
def Remains {α : Type} (p p' : α × TemplateArgs × List Char) : Prop :=
  p.1 = p'.1 ∧ B.Filling p.2.1 p'.2.1 ∧ p.2.2 = p'.2.2

theorem sim_templateWidth (d : Directive) (h : B.Filling a a') (cs : List Char) :
    B.Sim B.Remains (templateWidth d a cs) (templateWidth d a' cs) := by
  unfold templateWidth
  split
  · refine sim_bind (sim_nextInteger h) ?_
    rintro ⟨n, a⟩ ⟨n', a'⟩ ⟨rfl, ha⟩
    exact sim_check rfl (sim_pure ⟨rfl, ha, rfl⟩)
  · exact sim_check rfl (sim_pure ⟨rfl, h, rfl⟩)

theorem sim_templatePrecision (d : Directive) (h : B.Filling a a') (cs : List Char) :
    B.Sim B.Remains (templatePrecision d a cs) (templatePrecision d a' cs) := by
  unfold templatePrecision
  split
  · refine sim_bind (sim_nextInteger h) ?_
    rintro ⟨n, a⟩ ⟨n', a'⟩ ⟨rfl, ha⟩
    exact sim_check rfl (sim_pure ⟨rfl, ha, rfl⟩)
  · exact sim_check rfl (sim_pure ⟨rfl, h, rfl⟩)
  · exact sim_pure ⟨rfl, h, rfl⟩

theorem sim_keyedArguments (h : B.Filling a a') (cs : List Char) :
    B.Sim (fun p p' => B.Filling p.1 p'.1 ∧ p.2 = p'.2) (keyedArguments a cs) (keyedArguments a' cs) := by
  unfold keyedArguments
  split
  · rw [h.isNone]
    refine sim_check rfl ?_
    split
    · exact sim_fault rfl
    · exact sim_bind (sim_templateEntry h _) fun hv => sim_pure ⟨⟨.cons hv .nil, h.mapping⟩, rfl⟩
  · exact sim_pure ⟨h, rfl⟩

theorem sim_formatDirective (size : Nat) (h : B.Filling a a') (cs : List Char) :
    B.Sim B.Remains (formatDirective size a cs) (formatDirective size a' cs) := by
  refine sim_bind (sim_keyedArguments h cs) ?_
  rintro ⟨a, cs⟩ ⟨a', cs'⟩ ⟨ha, hcs⟩
  obtain rfl : cs = cs' := hcs
  refine sim_bind (sim_templateWidth _ ha _) ?_
  rintro ⟨d, a, cs⟩ ⟨d', a', cs'⟩ ⟨hd, ha, hcs⟩
  obtain rfl : d = d' := hd
  obtain rfl : cs = cs' := hcs
  refine sim_bind (sim_templatePrecision _ ha _) ?_
  rintro ⟨d, a, cs⟩ ⟨d', a', cs'⟩ ⟨hd, ha, hcs⟩
  obtain rfl : d = d' := hd
  obtain rfl : cs = cs' := hcs
  dsimp only
  split
  · exact sim_fault rfl
  · refine sim_bind (sim_nextArgument ha) fun hp => ?_
    exact sim_then (sim_convert _ _ _ hp.1) fun s => sim_pure ⟨rfl, hp.2, rfl⟩

theorem sim_formatFrom (size fuel : Nat) (h : B.Filling a a') (cs : List Char) :
    B.Sim Eq (formatFrom size fuel a cs) (formatFrom size fuel a' cs) := by
  induction fuel generalizing a a' cs with
  | zero => exact sim_throw .exhausted
  | succ fuel ih =>
    unfold formatFrom
    dsimp only
    split
    · rw [h.isNone, isEmpty_congr h.items]
      exact sim_check rfl (sim_pure rfl)
    · exact sim_then (ih h _) fun _ => sim_pure rfl
    · refine sim_bind (sim_formatDirective size h _) ?_
      rintro ⟨s, a, rest⟩ ⟨s', a', rest'⟩ ⟨rfl, ha, rfl⟩
      exact sim_then (ih ha _) fun _ => sim_pure rfl

end

theorem sim_formatTemplate (template : String) (hv : B.Val v v') :
    B.Sim Eq (formatTemplate template v) (formatTemplate template v') := by
  have hfrom {a a' : TemplateArgs} (h : B.Filling a a') := sim_formatFrom template.length
    (template.length + 1) h template.toList
  cases hv with
  | tuple hp => exact sim_get fun hw => hfrom ⟨hw.tuple hp, .none⟩
  | dict hp => exact hfrom ⟨.cons (.dict hp) .nil, .some (.dict hp)⟩
  | list hp => exact hfrom ⟨.cons (.list hp) .nil, .some (.list hp)⟩
  | _ => exact hfrom ⟨.cons (by constructor <;> assumption) .nil, .none⟩

/-! ## arithmetic -/

theorem sim_ofNumeric (x : Numeric) : B.Sim B.Val (ofNumeric x) (ofNumeric x) := by
  cases x with
  | int n => exact sim_pure (.int n)
  | real x => exact sim_newDouble x

theorem sim_repeatCount (size : Nat) (n : Int) : B.Sim Eq (repeatCount size n) (repeatCount size n) :=
  sim_ite (sim_fault rfl) (sim_ite (sim_fault rfl) (sim_pure rfl))

theorem repeatItems_rel (h : List.Forall₂ R xs ys) (n : Nat) :
    List.Forall₂ R (repeatItems xs n) (repeatItems ys n) := by
  unfold repeatItems
  rw [isEmpty_congr h]
  split
  · exact .nil
  · induction n with
    | zero => exact .nil
    | succ n ih =>
      rw [List.replicate_succ, List.replicate_succ, List.flatten_cons, List.flatten_cons]
      exact List.rel_append h ih

theorem sim_repeated (hv : B.Val v v') (n : Int) :
    B.Sim (Option.Rel B.Val) (repeated? v n) (repeated? v' n) := by
  cases hv with
  | str s => exact sim_check rfl (sim_then (sim_repeatCount _ n) fun _ => sim_pure (.some (.str _)))
  | list hp =>
    refine sim_get fun hw => ?_
    have hl := hw.list hp
    dsimp only
    rw [hl.length_eq]
    refine sim_then (sim_repeatCount _ n) fun k => ?_
    exact sim_bind (sim_newList (repeatItems_rel hl k)) fun hu => sim_pure (.some hu)
  | tuple hp =>
    refine sim_get fun hw => ?_
    have hl := hw.tuple hp
    dsimp only
    rw [hl.length_eq]
    refine sim_then (sim_repeatCount _ n) fun k => ?_
    exact sim_bind (sim_newTuple (repeatItems_rel hl k)) fun hu => sim_pure (.some hu)
  | _ => exact sim_pure .none

theorem isSequence_eq (hv : B.Val v v') : isSequence v = isSequence v' := by cases hv <;> rfl

theorem sim_unsupported (op : ArithOp) (hv : B.Val v v') (hu : B.Val u u') :
    B.Sim R (unsupported op v u) (unsupported op v' u') := by
  unfold unsupported
  rw [hv.kindName, hu.kindName]
  exact sim_fault rfl

theorem sim_joined (hv : B.Val v v') (hu : B.Val u u') : B.Sim B.Val (joined v u) (joined v' u') := by
  have hother : B.Sim B.Val
      (if isSequence v then fail (.cannotConcat v.kindName u.kindName) else unsupported .add v u)
      (if isSequence v' then fail (.cannotConcat v'.kindName u'.kindName) else unsupported .add v' u') := by
    rw [isSequence_eq hv, hv.kindName, hu.kindName]
    exact sim_ite (sim_fault rfl) (sim_unsupported .add hv hu)
  cases hv with
  | str s =>
    cases hu with
    | str t => exact sim_pure (.str _)
    | _ => exact hother
  | list hp =>
    cases hu with
    | list hq =>
      refine sim_get fun hw => sim_newList ?_
      rw [Array.toList_append, Array.toList_append]
      exact List.rel_append (hw.list hp) (hw.list hq)
    | _ => exact hother
  | tuple hp =>
    cases hu with
    | tuple hq => exact sim_get fun hw => sim_newTuple (List.rel_append (hw.tuple hp) (hw.tuple hq))
    | _ => exact hother
  | _ => exact hother

theorem sim_multiplied (hv : B.Val v v') (hu : B.Val u u') :
    B.Sim B.Val (multiplied v u) (multiplied v' u') := by
  unfold multiplied
  rw [isSequence_eq hv, isSequence_eq hu, hv.int?, hu.int?, hv.kindName, hu.kindName]
  refine sim_ite ?_ (sim_ite ?_ (sim_unsupported .mul hv hu))
  · split
    · exact sim_bind (sim_repeated hv _) fun h => sim_pure (getD_null h)
    · exact sim_fault rfl
  · split
    · exact sim_bind (sim_repeated hu _) fun h => sim_pure (getD_null h)
    · exact sim_fault rfl

theorem sim_arith (op : ArithOp) (hv : B.Val v v') (hu : B.Val u u') :
    B.Sim B.Val (arith op v u) (arith op v' u') := by
  unfold arith
  rw [hv.numeric?, hu.numeric?]
  split
  · exact sim_then (sim_ofExcept (.known (Numeric.known_arith op _ _) rfl)) sim_ofNumeric
  · cases op with
    | add => exact sim_joined hv hu
    | mul => exact sim_multiplied hv hu
    | mod =>
      cases hv with
      | str s => exact sim_then (sim_formatTemplate s hu) fun _ => sim_pure (.str _)
      | _ => exact sim_unsupported .mod (by constructor <;> assumption) hu
    | sub => exact sim_unsupported .sub hv hu
    | div => exact sim_unsupported .div hv hu

theorem sim_power (hv : B.Val v v') (hu : B.Val u u') : B.Sim B.Val (power v u) (power v' u') := by
  unfold power
  rw [hv.numeric?, hu.numeric?, hv.kindName, hu.kindName]
  split
  · exact sim_then (sim_ofExcept (.known (Numeric.known_power _ _) rfl)) sim_ofNumeric
  · exact sim_fault rfl

/-! ## builtin functions -/

section
variable {vs vs' : List Value}

theorem sim_argument (h : B.Vals vs vs') (n : Nat) : B.Sim B.Val (argument vs n) (argument vs' n) := by
  unfold argument
  exact rel_elim (forall₂_get? h n) (sim_fault rfl) fun hv => sim_pure hv

theorem forall₂_eq_eq {ys : List α} (h : List.Forall₂ Eq xs ys) : xs = ys := List.forall₂_eq_eq_eq ▸ h

theorem sim_texts {f : Value → Exec String} (hf : ∀ {v v'}, B.Val v v' → B.Sim Eq (f v) (f v'))
    (h : B.Vals vs vs') : B.Sim Eq (vs.mapM f) (vs'.mapM f) :=
  (sim_mapM h hf).imp forall₂_eq_eq

theorem sim_printValues (h : B.Vals vs vs') : B.Sim B.Val (printValues vs) (printValues vs') :=
  sim_then (sim_texts sim_shown h) fun _ => sim_then (sim_write _) fun _ => sim_pure .null

theorem sim_printEnd (hv : B.Val v v') : B.Sim Eq (printEnd v) (printEnd v') := by
  cases hv with
  | str s =>
    unfold printEnd
    dsimp only
    split
    · exact sim_pure rfl
    · exact sim_giveUp
    · exact sim_fault rfl
  | _ => exact sim_fault rfl

theorem Vals.getD (h : B.Vals vs vs') (n : Nat) (hv : B.Val v v') : B.Val (vs.getD n v) (vs'.getD n v') := by
  rw [List.getD_eq_getElem?_getD, List.getD_eq_getElem?_getD]
  exact rel_elim (forall₂_get? h n) hv fun hx => hx

theorem sim_printFormatted (h : B.Vals vs vs') : B.Sim B.Val (printFormatted vs) (printFormatted vs') := by
  unfold printFormatted
  dsimp only
  rw [h.length_eq]
  have hlast : B.Val (if 1 ≤ vs'.length then vs.getD (vs'.length - 1) .null else .str "\n")
      (if 1 ≤ vs'.length then vs'.getD (vs'.length - 1) .null else .str "\n") := by
    split
    · exact h.getD _ .null
    · exact .str _
  have hsep : B.Val (if 2 ≤ vs'.length then vs.getD (vs'.length - 2) .null else .str " ")
      (if 2 ≤ vs'.length then vs'.getD (vs'.length - 2) .null else .str " ") := by
    split
    · exact h.getD _ .null
    · exact .str _
  refine sim_then (sim_printEnd hlast) fun ending => ?_
  generalize (if 2 ≤ vs'.length then vs.getD (vs'.length - 2) .null else .str " ") = sep at hsep
  generalize (if 2 ≤ vs'.length then vs'.getD (vs'.length - 2) .null else .str " ") = sep' at hsep
  cases hsep with
  | str sep =>
    refine sim_then (sim_texts sim_plain (List.forall₂_take _ h)) fun _ => ?_
    exact sim_then (sim_write _) fun _ => sim_pure .null
  | _ => exact sim_fault rfl

theorem sim_inputLine : B.Sim Eq inputLine inputLine := by
  refine sim_get fun hw => ?_
  rw [hw.input]
  split
  · exact sim_fault rfl
  · exact sim_then (sim_modify fun hu => hu.setInput _) fun _ => sim_pure rfl

theorem sim_inputValue (line : String) : B.Sim B.Val (inputValue line) (inputValue line) := by
  refine sim_ite ?_ (sim_pure (.str line))
  split
  · exact sim_newDouble _
  · exact sim_pure (.str line)

theorem sim_readInput (h : B.Vals vs vs') : B.Sim B.Val (readInput vs) (readInput vs') := by
  have hline := sim_then (B := B) sim_inputLine sim_inputValue
  rcases h with _ | ⟨hv, _ | ⟨hu, hus⟩⟩
  · exact hline
  · exact sim_then (sim_plain hv) fun s => sim_then (sim_write s) fun _ => hline
  · unfold readInput
    dsimp only
    rw [List.length_cons, List.length_cons, List.length_cons, List.length_cons, hus.length_eq]
    exact sim_raise rfl

theorem sim_integerArgument (hv : B.Val v v') : B.Sim Eq (integerArgument v) (integerArgument v') := by
  unfold integerArgument
  rw [hv.int?, hv.kindName]
  split
  · exact sim_pure rfl
  · exact sim_fault rfl

theorem sim_makeRange (start stop step : Int) :
    B.Sim B.Val (makeRange start stop step) (makeRange start stop step) := by
  refine sim_check rfl (sim_check rfl (sim_check rfl (sim_newList ?_)))
  exact vals_map fun n => .int n

theorem sim_toRange (h : B.Vals vs vs') : B.Sim B.Val (toRange vs) (toRange vs') := by
  rcases h with _ | ⟨ha, _ | ⟨hb, _ | ⟨hc, _ | ⟨hd, hds⟩⟩⟩⟩
  · exact sim_fault rfl
  · exact sim_then (sim_integerArgument ha) fun _ => sim_makeRange _ _ _
  · refine sim_then (sim_integerArgument ha) fun _ => ?_
    exact sim_then (sim_integerArgument hb) fun _ => sim_makeRange _ _ _
  · refine sim_then (sim_integerArgument ha) fun _ => sim_then (sim_integerArgument hb) fun _ => ?_
    exact sim_then (sim_integerArgument hc) fun _ => sim_makeRange _ _ _
  · exact sim_fault rfl

theorem sim_toInt (hv : B.Val v v') : B.Sim B.Val (toInt v) (toInt v') := by
  cases hv with
  | str s =>
    unfold toInt
    dsimp only
    split
    · exact sim_pure (.int _)
    · exact sim_fault rfl
    · exact sim_fault rfl
  | float x =>
    unfold toInt
    dsimp only [Value.numeric?]
    split
    · exact sim_pure (.int _)
    · exact sim_ite (sim_fault rfl) (sim_fault rfl)
  | bool b => exact sim_pure (.int _)
  | int n => exact sim_pure (.int _)
  | _ => exact sim_fault rfl

theorem sim_toFloat (hv : B.Val v v') : B.Sim B.Val (toFloat v) (toFloat v') := by
  have hdouble (x : Numeric) : B.Sim B.Val (ofExcept x.toDouble >>= newDouble) (ofExcept x.toDouble >>= newDouble) :=
    sim_then (sim_ofExcept (.known x.known_toDouble rfl)) sim_newDouble
  cases hv with
  | float x => exact sim_pure (.float x)
  | nan h => exact sim_pure (.nan h)
  | str s =>
    unfold toFloat
    dsimp only
    split
    · exact sim_newDouble _
    · exact sim_fault rfl
  | bool b => exact hdouble _
  | int n => exact hdouble _
  | _ => exact sim_fault rfl

theorem sim_putPairs {d d' : Dict} (hd : B.Dicts d d') (n : Nat) (h : B.Vals vs vs') :
    B.Sim B.Dicts (putPairs d n vs) (putPairs d' n vs') := by
  induction h generalizing d d' n with
  | nil => exact sim_pure hd
  | cons hv _ ih =>
    refine sim_bind (sim_itemsOr rfl hv) fun hs => ?_
    rcases hs with _ | ⟨hk, _ | ⟨hu, _ | ⟨hx, hxs⟩⟩⟩
    · exact sim_fault rfl
    · exact sim_fault rfl
    · exact sim_then (sim_checkKey hk) fun _ => ih (hd.insert hk hu) (n + 1)
    · dsimp only
      rw [List.length_cons, List.length_cons, List.length_cons, List.length_cons, List.length_cons,
        List.length_cons, hxs.length_eq]
      exact sim_fault rfl

theorem sim_toDict (hv : B.Val v v') : B.Sim B.Val (toDict v) (toDict v') := by
  have hall := sim_bind (sim_items hv) fun h => sim_bind (sim_putPairs .empty 0 h) fun hd => sim_newDict hd
  cases hv with
  | dict hp => exact sim_get fun hw => sim_newDict (hw.dict hp)
  | _ => exact hall

theorem sim_toCharacter (hv : B.Val v v') : B.Sim B.Val (toCharacter v) (toCharacter v') :=
  sim_then (sim_integerArgument hv) fun _ => sim_ite (sim_fault rfl) (sim_ite (sim_fault rfl)
    (sim_then (sim_character _) fun s => sim_pure (.str s)))

theorem sim_toOrdinal (hv : B.Val v v') : B.Sim B.Val (toOrdinal v) (toOrdinal v') := by
  cases hv with
  | str s =>
    unfold toOrdinal
    dsimp only
    split
    · exact sim_pure (.int _)
    · exact sim_fault rfl
  | _ => exact sim_fault rfl

theorem sim_toFile (h : B.Vals vs vs') : B.Sim B.Val (toFile vs) (toFile vs') := by
  have hmake {x x' : Exec Value} (hx : B.Sim B.Val x x') : B.Sim B.Val
      (x >>= fun file => newDict ⟨[(.str "__type__", .str "__file__"), (.str "__file__", file)]⟩)
      (x' >>= fun file => newDict ⟨[(.str "__type__", .str "__file__"), (.str "__file__", file)]⟩) :=
    sim_bind hx fun hf => sim_newDict (.cons ⟨.str _, .str _⟩ (.cons ⟨.str _, hf⟩ .nil))
  rcases h with _ | ⟨ha, _ | ⟨hb, _ | ⟨hc, hcs⟩⟩⟩
  · exact sim_raise rfl
  · exact hmake (sim_openFile ha (.str "r"))
  · exact hmake (sim_openFile ha hb)
  · exact sim_raise rfl

end

/-! ## sorting -/

theorem forall₂_insertIdx (h : List.Forall₂ R xs ys) (n : Nat) {x : α} {y : β}
    (hx : R x y) : List.Forall₂ R (xs.insertIdx n x) (ys.insertIdx n y) := by
  induction h generalizing n with
  | nil =>
    cases n with
    | zero => exact .cons hx .nil
    | succ n => exact .nil
  | cons hz hs ih =>
    cases n with
    | zero => exact .cons hx (.cons hz hs)
    | succ n =>
      rw [List.insertIdx_succ_cons, List.insertIdx_succ_cons]
      exact .cons hz (ih n)

theorem Vals.insertIdxIfInBounds {a a' : Array Value} (h : B.Vals a.toList a'.toList) (n : Nat)
    (hv : B.Val v v') : B.Vals (a.insertIdxIfInBounds n v).toList (a'.insertIdxIfInBounds n v').toList := by
  unfold Array.insertIdxIfInBounds
  by_cases hn : n ≤ a.size
  · rw [dif_pos hn, dif_pos (h.size ▸ hn), Array.toList_insertIdx, Array.toList_insertIdx]
    exact forall₂_insertIdx h n hv
  · rw [dif_neg hn, dif_neg (h.size ▸ hn)]
    exact h

section
variable {less less' : Value → Value → Except Fault Bool} {vs vs' : List Value} {a a' : Array Value}
  (hl : ∀ {x x' y y'}, B.Val x x' → B.Val y y' → less x y = less' x' y')
include hl

theorem runLength_eq (hv : B.Val v v') (h : B.Vals vs vs') : runLength less v vs = runLength less' v' vs' := by
  induction h generalizing v v' with
  | nil => rfl
  | cons hx _ ih => rw [runLength, runLength, hl hv hx, ih hx]

theorem insertPlace_eq (ha : B.Vals a.toList a'.toList) (hv : B.Val v v') (fuel low high : Nat) :
    insertPlace less a v fuel low high = insertPlace less' a' v' fuel low high := by
  induction fuel generalizing low high with
  | zero => rfl
  | succ fuel ih =>
    have hm : B.Val (a.getD ((low + high) / 2) .null) (a'.getD ((low + high) / 2) .null) := by
      rw [Array.getD_eq_getD_getElem?, Array.getD_eq_getD_getElem?]
      exact rel_elim (Vals.item ha _) .null fun hx => hx
    rw [insertPlace, insertPlace]
    dsimp only
    rw [hl hv hm, ih, ih]

omit hl in
variable (B) in
def Sorts (s s' : Sorted) : Prop := B.Vals s.items s'.items ∧ s.fault = s'.fault

theorem insertAll_rel (ha : B.Vals a.toList a'.toList) (h : B.Vals vs vs') :
    B.Sorts (insertAll less a vs) (insertAll less' a' vs') := by
  induction h generalizing a a' with
  | nil => exact ⟨ha, rfl⟩
  | @cons x x' xs xs' hx hxs ih =>
    rw [insertAll, insertAll, insertPlace_eq hl ha hx, Vals.size ha]
    split
    · exact ⟨List.rel_append ha (.cons hx hxs), rfl⟩
    · exact ih (ha.insertIdxIfInBounds _ hx)

theorem sortForward_rel (h : B.Vals vs vs') : B.Sorts (sortForward less vs) (sortForward less' vs') := by
  rcases h with _ | ⟨hx, _ | ⟨hy, hs⟩⟩
  · exact ⟨.nil, rfl⟩
  · exact ⟨.cons hx .nil, rfl⟩
  · have hall := List.Forall₂.cons hx (List.Forall₂.cons hy hs)
    unfold sortForward
    dsimp only
    have hstep (down : Bool) {x x' y y' : Value} (hx : B.Val x x') (hy : B.Val y y') :
        (if down then fun x y => less y x else fun x y => do return !(← less y x)) x y =
          (if down then fun x y => less' y x else fun x y => do return !(← less' y x)) x' y' := by
      cases down with
      | true => exact hl hy hx
      | false => exact congrArg (fun r => r >>= fun b => pure !b) (hl hy hx)
    rw [hl hy hx]
    split
    · exact ⟨hall, rfl⟩
    · rename_i down _
      rw [runLength_eq (hstep down) hy hs]
      split
      · exact ⟨hall, rfl⟩
      · rename_i n _
        refine insertAll_rel hl ?_ (List.forall₂_drop _ hall)
        have htake := List.forall₂_take (n + 2) hall
        cases down with
        | true => exact List.rel_reverse htake
        | false => exact htake

theorem sortItems_rel (reverse : Bool) (h : B.Vals vs vs') :
    B.Sorts (sortItems less reverse vs) (sortItems less' reverse vs') := by
  unfold sortItems
  split
  · have hs := sortForward_rel hl (List.rel_reverse h)
    exact ⟨List.rel_reverse hs.1, hs.2⟩
  · exact sortForward_rel hl h

end

/-! ## methods -/

section
variable {vs vs' : List Value}

theorem sim_checkArity (least most : Nat) (name : String) (h : B.Vals vs vs') :
    B.Sim Eq (checkArity least most name vs) (checkArity least most name vs') := by
  unfold checkArity
  rw [h.length_eq]
  exact sim_ite (sim_fault rfl) (sim_ite (sim_fault rfl) (sim_pure rfl))

theorem sim_callTextMethod (m : TextMethod) (s : String) (h : B.Vals vs vs') :
    B.Sim B.Val (callTextMethod m s vs) (callTextMethod m s vs') := by
  cases m with
  | join =>
    refine sim_then (sim_checkArity 2 2 "iterable" h) fun _ => sim_bind (sim_items (h.getD 0 .null)) fun hs => ?_
    exact sim_then (sim_texts sim_plain hs) fun _ => sim_pure (.str _)
  | split =>
    refine sim_then (sim_checkArity 1 2 "" h) fun _ => ?_
    have hsep := h.getD 0 (.str " ")
    generalize vs.getD 0 (.str " ") = sep at hsep
    generalize vs'.getD 0 (.str " ") = sep' at hsep
    cases hsep with
    | null => exact sim_newList (vals_map fun _ => .str _)
    | str sep => exact sim_check rfl (sim_newList (vals_map fun _ => .str _))
    | _ => exact sim_fault rfl
  | _ => exact sim_then (sim_checkArity 1 1 "" h) fun _ => sim_pure (.str _)

theorem findIdx?_congr {p : α → Bool} {q : β → Bool} (hp : ∀ {x y}, R x y → p x = q y)
    (h : List.Forall₂ R xs ys) : xs.findIdx? p = ys.findIdx? q := by
  induction h with
  | nil => rfl
  | cons hx _ ih => rw [List.findIdx?_cons, List.findIdx?_cons, hp hx, ih]

theorem sim_findItem (hp : B.lists.Pairs i j) (hv : B.Val v v') : B.Sim Eq (findItem i v) (findItem j v') :=
  sim_get fun hw => sim_pure (findIdx?_congr (fun hx => hw.matching hx hv) (hw.list hp))

theorem sim_sortList (hp : B.lists.Pairs i j) (hv : B.Val v v') :
    B.Sim B.Val (sortList i v) (sortList j v') := by
  refine sim_then (sim_integerArgument hv) fun n => sim_check rfl (sim_get fun {w w'} hw => ?_)
  have hs (reverse : Bool) : B.Sorts (sortItems w.less reverse (w.list i).toList)
      (sortItems w'.less reverse (w'.list j).toList) :=
    sortItems_rel (fun hx hy => hw.less hx hy) reverse (hw.list hp)
  dsimp only
  refine sim_then (sim_setList hp (hs _).1) fun _ => ?_
  rw [(hs _).2]
  split
  · rename_i f hf
    exact sim_fail (.known (known_sortItems w'.known_less _ _ f hf))
  · exact sim_pure .null

theorem forall₂_eraseIdx (h : List.Forall₂ R xs ys) (n : Nat) :
    List.Forall₂ R (xs.eraseIdx n) (ys.eraseIdx n) := by
  induction h generalizing n with
  | nil => exact .nil
  | cons hx hs ih =>
    cases n with
    | zero => exact hs
    | succ n => exact .cons hx (ih n)

theorem forall₂_dropLast (h : List.Forall₂ R xs ys) : List.Forall₂ R xs.dropLast ys.dropLast := by
  rw [List.dropLast_eq_take, List.dropLast_eq_take, h.length_eq]
  exact List.forall₂_take _ h

theorem sim_push (hp : B.lists.Pairs i j) (hv : B.Val v v') :
    B.Sim Eq (modifyList i (·.push v)) (modifyList j (·.push v')) := by
  refine sim_modifyList hp fun ha => ?_
  rw [Array.toList_push, Array.toList_push]
  exact List.rel_append ha (.cons hv .nil)

theorem sim_callListMethod (m : ListMethod) (hp : B.lists.Pairs i j) (h : B.Vals vs vs') :
    B.Sim B.Val (callListMethod m i vs) (callListMethod m j vs') := by
  have hv := h.getD 0 .null
  cases m with
  | append =>
    exact sim_then (sim_checkArity 2 2 "i" h) fun _ => sim_then (sim_push hp hv) fun _ => sim_pure .null
  | extend =>
    refine sim_then (sim_checkArity 2 2 "i" h) fun _ => sim_bind (sim_items hv) fun hs =>
      sim_then (sim_modifyList hp fun ha => ?_) fun _ => sim_pure .null
    rw [Array.toList_append, Array.toList_append]
    exact List.rel_append ha hs
  | remove =>
    refine sim_then (sim_checkArity 2 2 "i" h) fun _ => sim_then (sim_findItem hp hv) fun o => ?_
    cases o with
    | none => exact sim_fault rfl
    | some n =>
      refine sim_then (sim_modifyList hp fun ha => ?_) fun _ => sim_pure .null
      rw [Array.toList_eraseIdxIfInBounds, Array.toList_eraseIdxIfInBounds]
      exact forall₂_eraseIdx ha n
  | sort =>
    refine sim_then (sim_checkArity 1 2 "" h) fun _ => ?_
    exact sim_sortList hp (h.getD 0 (.bool false))
  | reverse =>
    refine sim_then (sim_checkArity 1 1 "" h) fun _ => sim_then (sim_modifyList hp fun ha => ?_) fun _ =>
      sim_pure .null
    rw [Array.toList_reverse, Array.toList_reverse]
    exact List.rel_reverse ha
  | pop =>
    refine sim_then (sim_checkArity 1 1 "" h) fun _ => sim_get fun hw => ?_
    have hl := hw.list hp
    rw [Array.back?_eq_getElem?, Array.back?_eq_getElem?, Vals.size hl]
    refine rel_elim (Vals.item hl _) (sim_fault rfl) fun hx => ?_
    refine sim_then (sim_modifyList hp fun ha => ?_) fun _ => sim_pure hx
    rw [Array.toList_pop, Array.toList_pop]
    exact forall₂_dropLast ha
  | index =>
    refine sim_then (sim_checkArity 2 2 "i" h) fun _ => sim_then (sim_findItem hp hv) fun o => ?_
    cases o with
    | none => exact sim_then (sim_shown hv) fun _ => sim_fault rfl
    | some n => exact sim_pure (.int _)

theorem sim_callFileMethod (m : FileMethod) (hv : B.Val v v') (h : B.Vals vs vs') :
    B.Sim B.Val (callFileMethod m v vs) (callFileMethod m v' vs') := by
  have hu := h.getD 0 .null
  unfold callFileMethod
  refine sim_ite (sim_then (sim_checkArity 2 2 "data" h) fun _ => ?_)
    (sim_then (sim_checkArity 1 1 "" h) fun _ => ?_)
  all_goals
    cases hv with
    | file cell =>
      cases m with
      | read => exact sim_readRest cell
      | write => exact sim_writeText cell hu
      | close => exact sim_closeFile cell
      | readLines => exact sim_bind (sim_readLines cell) fun hs => sim_newList hs
      | readLine => exact sim_then (sim_readLine cell) fun _ => sim_pure (.str _)
    | _ => exact sim_fault rfl

end

/-! ## attributes -/

variable (B) in
/-- attributes that stand for each other -/
inductive Member : Found → Found → Prop
  | method {i j : Nat} (h : B.functions.Pairs i j) : Member (.method i) (.method j)
  | field : Member .field .field

section
variable {t t' : ClassTable}

theorem Class.own? {c c' : ClassInfo} (h : B.Class c c') (className attr : String) :
    Option.Rel B.Member (c.own? className attr) (c'.own? className attr) := by
  have hor {o o' p p' : Option Nat} (h : Option.Rel B.functions.Pairs o o')
      (h' : Option.Rel B.functions.Pairs p p') : Option.Rel B.functions.Pairs (o <|> p) (o' <|> p') := by
    cases h with
    | none => exact h'
    | some h => exact .some h
  have hm := hor (h.methods.lookup attr) (hor (h.methods.lookup (className ++ "." ++ attr))
    (h.methods.lookup ("self." ++ attr)))
  unfold ClassInfo.own?
  refine rel_elim hm ?_ fun hf => .some (.method hf)
  rw [h.fields]
  dsimp only
  split
  · exact .some .field
  · exact .none

theorem Classes.find? (h : B.Classes t t') (name : String) :
    Option.Rel B.Class (t.find? name) (t'.find? name) := Tables.lookup h name

theorem foldl_congr_rel {γ : Type} {f : γ → α → γ} {g : γ → β → γ} (hf : ∀ c {x y}, R x y → f c x = g c y)
    (h : List.Forall₂ R xs ys) (c : γ) : xs.foldl f c = ys.foldl g c := by
  induction h generalizing c with
  | nil => rfl
  | cons hx _ ih => rw [List.foldl_cons, List.foldl_cons, hf c hx, ih]

theorem Classes.searchBound (h : B.Classes t t') : t.searchBound = t'.searchBound := by
  refine foldl_congr_rel (fun n p p' hp => ?_) h 2
  dsimp only
  rw [hp.2.parents]

theorem Classes.searchFrom (h : B.Classes t t') (attr : String) (fuel : Nat) (todo checked : List String) :
    Option.Rel B.Member (t.searchFrom attr fuel todo checked) (t'.searchFrom attr fuel todo checked) := by
  induction fuel generalizing todo checked with
  | zero => exact .none
  | succ fuel ih =>
    cases todo with
    | nil => exact .none
    | cons name todo =>
      rw [ClassTable.searchFrom, ClassTable.searchFrom]
      split
      · exact ih todo checked
      · refine rel_elim (h.find? name) (ih todo checked) fun hc => ?_
        dsimp only
        refine rel_elim (hc.own? name attr) ?_ fun hf => .some hf
        rw [hc.parents]
        exact ih _ _

theorem Classes.search (h : B.Classes t t') (className attr : String) :
    Option.Rel B.Member (t.search className attr) (t'.search className attr) := by
  unfold ClassTable.search
  rw [h.searchBound]
  exact h.searchFrom attr _ _ _

theorem Classes.collectMethods (h : B.Classes t t') (fuel : Nat) : t.collectMethods fuel = t'.collectMethods fuel := by
  induction fuel with
  | zero => rfl
  | succ fuel ih =>
    funext names className
    rw [ClassTable.collectMethods, ClassTable.collectMethods]
    refine rel_elim (h.find? className) rfl fun hc => ?_
    dsimp only
    rw [hc.methods.keys, hc.parents, ih]

theorem Classes.methodNames? (h : B.Classes t t') (className : String) :
    t.methodNames? className = t'.methodNames? className := by
  unfold ClassTable.methodNames?
  rw [h.collectMethods, List.Forall₂.length_eq h]

end

theorem sim_memberNames (hv : B.Val v v') : B.Sim Eq (memberNames v) (memberNames v') := by
  cases hv with
  | str name =>
    refine sim_get fun {w w'} hw => ?_
    rw [hw.classes.methodNames? name]
    split
    · exact sim_pure rfl
    · exact sim_giveUp
  | _ => exact sim_pure rfl

theorem sim_noMember (hp : B.dicts.Pairs i j) (hv : B.Val v v') (attr : String) (names : List String) :
    B.Sim B.Val (noMember i v attr names) (noMember j v' attr names) :=
  sim_get fun hw => sim_then (sim_texts sim_shown (hw.dict hp).keys) fun _ => sim_then (sim_plain hv) fun _ =>
    sim_fault rfl

theorem sim_otherAttribute (hp : B.dicts.Pairs i j) (hv : B.Val v v') (attr : String) :
    B.Sim B.Val (otherAttribute i v attr) (otherAttribute j v' attr) := by
  refine sim_then (sim_memberNames hv) fun names => ?_
  have hno := sim_noMember hp hv attr names
  refine sim_ite_iff (hv.eq_str_iff "__file__") (sim_get fun hw => ?_) hno
  refine rel_elim ((hw.dict hp).get? "__file__") (sim_fail (.missingKey (.str _))) fun hx => ?_
  dsimp only
  split
  · exact sim_newCallable (.fileMethod _ hx)
  · exact hno

theorem sim_instanceAttribute (hp : B.dicts.Pairs i j) (hv : B.Val v v') (attr : String) :
    B.Sim B.Val (instanceAttribute i v attr) (instanceAttribute j v' attr) := by
  have hother := sim_otherAttribute hp hv attr
  refine sim_then (sim_checkKey hv) fun _ => sim_get fun {w w'} hw => ?_
  cases hv with
  | str name =>
    dsimp only
    refine rel_elim (hw.classes.search name attr) hother fun hf => ?_
    cases hf with
    | method hf => exact sim_newCallable (.method hf (.dict hp))
    | field => exact sim_pure (getD_null ((hw.dict hp).get? attr))
  | _ => exact hother

theorem sim_getAttribute (hv : B.Val v v') (attr : String) :
    B.Sim B.Val (getAttribute v attr) (getAttribute v' attr) := by
  cases hv with
  | dict hp =>
    refine sim_get fun hw => ?_
    have hd := hw.dict hp
    dsimp only
    refine rel_elim (hd.get? "__type__") ?_ fun ht => sim_instanceAttribute hp ht attr
    exact rel_elim (hd.get? attr) (sim_fault rfl) fun h => sim_pure h
  | str s =>
    unfold getAttribute
    dsimp only
    split
    · exact sim_newCallable (.textMethod _ s)
    · exact sim_fault rfl
  | list hp =>
    unfold getAttribute
    dsimp only
    split
    · exact sim_newCallable (.listMethod _ hp)
    · exact sim_fault rfl
  | _ => exact sim_fault rfl

theorem sim_putAttribute {t t' : Node} (ht : B.Tree t t') (hv : B.Val v v') (attr : String) (hu : B.Val u u') :
    B.Sim Eq (putAttribute t v attr u) (putAttribute t' v' attr u') := by
  have hother := sim_then (sim_plain hv) fun s =>
    sim_fault (B := B) (R := (Eq : Unit → Unit → Prop)) (f := .attributeAssign attr s) rfl
  cases hv with
  | null =>
    refine sim_get fun hw => ?_
    rw [hw.nodeText ht]
    exact sim_fault rfl
  | dict hp => exact sim_putKey hp (.str attr) hu
  | list hp => exact sim_putElement (.list hp) (.str attr) hu
  | _ => exact hother

end Bond

end BraceScript
