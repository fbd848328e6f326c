import BraceScript.Proofs.Class.WrittenAttributes
import BraceScript.Proofs.Library.Inclusion
import Mathlib.Data.Fintype.EquivFin
import Mathlib.Data.Fintype.Sets

/-!
# Fields that are inherited

A constructor fills the fields that its own class declares, and no others. An attribute is looked up in the ancestors
too, and a field is found there, but the new instance has no entry for it: an inherited field is empty, whatever its
default is, while a new instance of the class that declares it has the value of the default.

* `ClassTable.LookupOrder`     the classes in the order in which they are looked at
* `LookupOrder.search_eq`      the first class that has something for an attribute decides
* `exists_lookupOrder`         without a cycle there is such an order
* `ClassTable.NoneBefore`      no class has an attribute before an ancestor
* `New`, `New.entries`         a new instance of a registered class, and its entries
* `inherited_field_empty`      the attribute in a new instance of a class and of its ancestor
-/

namespace BraceScript

open Exec Relation

/-! ## the order of the classes -/

namespace ClassTable

/-- the registered classes in the order in which they are looked at, from classes in order: each is followed by
its parents from left to right, with their own parents, and then by the next -/
inductive LookupOrder (t : ClassTable) : List String → List String → Prop
  | done : LookupOrder t [] []
  | absent {name : String} {todo order : List String} (hn : t.find? name = none)
      (rest : LookupOrder t todo order) : LookupOrder t (name :: todo) order
  | present {name : String} {todo above order : List String} {c : ClassInfo} (hc : t.find? name = some c)
      (parents : LookupOrder t (c.parents.getD []) above) (rest : LookupOrder t todo order) :
      LookupOrder t (name :: todo) (name :: (above ++ order))

/-- what a class of a given name itself has for an attribute -/
def own? (t : ClassTable) (attr name : String) : Option Found := (t.find? name).bind (·.own? name attr)

variable {t : ClassTable} {attr : String}

theorem own?_eq {name : String} {c : ClassInfo} (hc : t.find? name = some c) :
    t.own? attr name = c.own? name attr := by
  rw [own?, hc, Option.bind_some]

/-- the plain recursion goes through the classes in their order -/
theorem LookupOrder.finds {todo order : List String} (h : t.LookupOrder todo order) :
    t.Finds attr todo (order.findSome? (t.own? attr)) := by
  induction h with
  | done => exact .done
  | absent hn _ ih => exact .absent hn ih
  | @present name todo above order c hc _ _ ihAbove ihRest =>
    rw [List.findSome?_cons, own?_eq hc, List.findSome?_append]
    cases hown : c.own? name attr with
    | some f => exact .owned hc hown
    | none =>
      cases habove : above.findSome? (t.own? attr) with
      | some f =>
        rw [habove] at ihAbove
        exact .inherited hc hown ihAbove
      | none =>
        rw [habove] at ihAbove
        exact .passed hc hown ihAbove ihRest

/-- without a cycle, the first class of the order that has something for an attribute decides -/
theorem LookupOrder.search_eq (hac : t.Acyclic) {className : String} {order : List String}
    (h : t.LookupOrder [className] order) : t.search className attr = order.findSome? (t.own? attr) :=
  (finds_search hac className).unique h.finds

theorem exists_lookupOrder_of_forall {names : List String} (h : ∀ name ∈ names, ∃ order, t.LookupOrder [name] order) :
    ∃ order, t.LookupOrder names order := by
  induction names with
  | nil => exact ⟨[], .done⟩
  | cons name names ih =>
    rw [List.forall_mem_cons] at h
    obtain ⟨order, hrest⟩ := ih h.2
    obtain ⟨_, hname⟩ := h.1
    cases hname with
    | absent hn _ => exact ⟨order, .absent hn hrest⟩
    | present hc parents _ => exact ⟨_, .present hc parents hrest⟩

/-- there are only so many classes that parents can lead to -/
theorem Acyclic.wellFounded (hac : t.Acyclic) :
    WellFounded fun parent child : {name // name ∈ t.names} => TransGen t.Parent child.1 parent.1 := by
  have : IsTrans {name // name ∈ t.names} fun parent child => TransGen t.Parent child.1 parent.1 :=
    ⟨fun _ _ _ h h' => h'.trans h⟩
  have : Std.Irrefl fun parent child : {name // name ∈ t.names} => TransGen t.Parent child.1 parent.1 :=
    ⟨fun child => hac child.1⟩
  exact Finite.wellFounded_of_trans_of_irrefl _

theorem exists_lookupOrder (hac : t.Acyclic) (className : String) : ∃ order, t.LookupOrder [className] order := by
  have hall : ∀ child : {name // name ∈ t.names}, ∃ order, t.LookupOrder [child.1] order := by
    intro child
    induction child using hac.wellFounded.induction with
    | _ child ih =>
      obtain ⟨c, hc⟩ := Option.isSome_iff_exists.1 (isSome_find?_iff.2 child.2)
      have hparents : ∀ parent ∈ c.parents.getD [], ∃ order, t.LookupOrder [parent] order := by
        intro parent hp
        cases hn : t.find? parent with
        | none => exact ⟨[], .absent hn .done⟩
        | some c' =>
          have hm : parent ∈ t.names := isSome_find?_iff.1 (Option.isSome_iff_exists.2 ⟨c', hn⟩)
          exact ih ⟨parent, hm⟩ (.single ⟨c, hc, hp⟩)
      obtain ⟨above, ha⟩ := exists_lookupOrder_of_forall hparents
      exact ⟨_, .present hc ha .done⟩
  cases hn : t.find? className with
  | none => exact ⟨[], .absent hn .done⟩
  | some c => exact hall ⟨className, isSome_find?_iff.1 (Option.isSome_iff_exists.2 ⟨c, hn⟩)⟩

/-- the registered classes that are reached from a class are in its order -/
theorem LookupOrder.mem_of_reaches {todo order : List String} (h : t.LookupOrder todo order) {name owner : String}
    (hn : name ∈ todo) (path : t.Reaches name owner) {c : ClassInfo} (hc : t.find? owner = some c) :
    owner ∈ order := by
  induction h generalizing name with
  | done => cases hn
  | @absent other todo order hother _ ih =>
    obtain rfl | hn := List.mem_cons.1 hn
    · -- no link starts at a class that is not registered
      obtain rfl | ⟨parent, ⟨c', hc', -⟩, -⟩ := ReflTransGen.cases_head path
      · cases hother.symm.trans hc
      · cases hother.symm.trans hc'
    · exact ih hn path
  | @present other todo above order c₁ hother _ _ ihAbove ihRest =>
    obtain rfl | hn := List.mem_cons.1 hn
    · obtain rfl | ⟨parent, ⟨c', hc', hp⟩, path⟩ := ReflTransGen.cases_head path
      · exact List.mem_cons_self
      · obtain rfl := Option.some.inj (hother.symm.trans hc')
        exact List.mem_cons_of_mem _ (List.mem_append_left _ (ihAbove hp path))
    · exact List.mem_cons_of_mem _ (List.mem_append_right _ (ihRest hn path))

theorem LookupOrder.unique {todo order order' : List String} (h : t.LookupOrder todo order)
    (h' : t.LookupOrder todo order') : order = order' := by
  induction h generalizing order' with
  | done =>
    cases h'
    rfl
  | absent hn _ ih =>
    cases h' with
    | absent _ rest => exact ih rest
    | present hc _ _ => cases hn.symm.trans hc
  | present hc _ _ ihAbove ihRest =>
    cases h' with
    | absent hn _ => cases hn.symm.trans hc
    | present hc' parents rest =>
      obtain rfl := Option.some.inj (hc.symm.trans hc')
      rw [ihAbove parents, ihRest rest]

/-- no class that is looked at before another one has something for an attribute -/
def NoneBefore (t : ClassTable) (className owner attr : String) : Prop :=
  ∀ before after, t.LookupOrder [className] (before ++ owner :: after) → owner ∉ before →
    ∀ name ∈ before, ∀ c, t.find? name = some c → ¬ (c.HasMethod name attr ∨ c.HasField attr)

section
variable {className owner : String} {c : ClassInfo} (hac : t.Acyclic) (hpath : TransGen t.Parent className owner)
  (hnone : t.NoneBefore className owner attr) (hc : t.find? owner = some c)
include hac hpath hnone hc

/-- the order of a class, up to an ancestor of it -/
theorem exists_before : ∃ before after, t.LookupOrder [className] (before ++ owner :: after) ∧ className ∈ before ∧
    before.findSome? (t.own? attr) = none := by
  obtain ⟨order, h⟩ := exists_lookupOrder hac className
  have hmem : owner ∈ order := h.mem_of_reaches List.mem_cons_self hpath.to_reflTransGen hc
  obtain ⟨before, after, rfl, hbefore⟩ := List.eq_append_cons_of_mem hmem
  refine ⟨before, after, h, ?_, List.findSome?_eq_none_iff.2 fun name hm => ?_⟩
  · -- the order starts with the class itself, which is not its own ancestor
    obtain ⟨parent, ⟨c', hc', -⟩, -⟩ := TransGen.head'_iff.1 hpath
    generalize horder : before ++ owner :: after = order at h
    cases h with
    | absent hn _ => cases hn.symm.trans hc'
    | present _ _ _ =>
      cases before with
      | nil =>
        obtain rfl := (List.cons.inj horder).1
        exact absurd hpath (hac owner)
      | cons name before =>
        obtain rfl := (List.cons.inj horder).1
        exact List.mem_cons_self
  · cases hn : t.find? name with
    | none => rw [own?, hn, Option.bind_none]
    | some c' => rw [own?_eq hn, ClassInfo.own?_eq_none_iff.2 (hnone before after h hbefore name hm c' hn)]

/-- an attribute that no class before an ancestor has is what it is in the ancestor -/
theorem search_eq_own? {f : Found} (hf : c.own? owner attr = some f) : t.search className attr = some f := by
  obtain ⟨before, after, h, -, hbefore⟩ := exists_before hac hpath hnone hc
  rw [h.search_eq hac, List.findSome?_append, hbefore, List.findSome?_cons, own?_eq hc, hf]
  rfl

theorem not_hasField_of_noneBefore {c' : ClassInfo} (hc' : t.find? className = some c') : ¬ c'.HasField attr := by
  obtain ⟨before, after, -, hm, hbefore⟩ := exists_before hac hpath hnone hc
  have hown := List.findSome?_eq_none_iff.1 hbefore className hm
  rw [own?_eq hc', ClassInfo.own?_eq_none_iff] at hown
  exact fun hf => hown (.inr hf)

end

theorem search_own? {className : String} {c : ClassInfo} (hac : t.Acyclic) (hc : t.find? className = some c)
    {f : Found} (hf : c.own? className attr = some f) : t.search className attr = some f :=
  (finds_search hac className).unique (.owned hc hf)

end ClassTable

/-! ## new instances -/

namespace Dict

theorem get?_putAll_of_notMem (d : Dict) {ms : List (String × Value)} {name : String} (h : name ∉ ms.map Prod.fst) :
    (d.putAll ms).get? name = d.get? name := by
  induction ms generalizing d with
  | nil => rfl
  | cons p ms ih =>
    rw [List.map_cons, List.mem_cons, not_or] at h
    show ((d.insert (.str p.1) p.2).putAll ms).get? name = _
    rw [ih _ h.2, get?_insert, if_neg h.1]

/-- the value that is put last under a name is there -/
theorem get?_putAll_append (d : Dict) (ms : List (String × Value)) (name : String) (v : Value)
    {ms' : List (String × Value)} (h : name ∉ ms'.map Prod.fst) :
    (d.putAll (ms ++ (name, v) :: ms')).get? name = some v := by
  have hsplit : d.putAll (ms ++ (name, v) :: ms') = ((d.putAll ms).insert (.str name) v).putAll ms' := List.foldl_append
  rw [hsplit, get?_putAll_of_notMem _ h, get?_insert, if_pos rfl]

/-- an instance has no entries but its class and the fields -/
theorem get?_instance_of_notMem {names : List String} {name : String} (h : name ∉ names) (className : String)
    (values : List Value) :
    (Dict.instance className names values).get? name = if name = "__type__" then some (.str className) else none := by
  have hzip : name ∉ (names.zip values).map Prod.fst := by
    intro hm
    obtain ⟨p, hp, rfl⟩ := List.mem_map.1 hm
    exact h (List.of_mem_zip hp).1
  rw [Dict.instance, get?_putAll_of_notMem _ hzip]
  show findIn (.str name) [(.str "__type__", .str className)] = _
  rw [findIn_cons]
  by_cases hn : name = "__type__"
  · rw [if_pos hn, if_pos (by rw [hn])]
  · rw [if_neg hn, if_neg fun he => hn (Value.str.inj he).symm]
    rfl

end Dict

theorem Exec.length_of_mapM {α β : Type} {g : α → Exec β} {xs : List α} {ys : List β} {w u : World}
    (h : xs.mapM g w = .ok ys u) : ys.length = xs.length := by
  induction xs generalizing ys w with
  | nil =>
    cases h
    rfl
  | cons x xs ih =>
    rw [List.mapM_cons] at h
    obtain ⟨y, w₁, -, h⟩ := bind_ok h
    obtain ⟨rest, w₂, hrest, h⟩ := bind_ok h
    cases h
    rw [List.length_cons, List.length_cons, ih hrest]

/-- `D()` makes a new instance of a class that is registered: the name of the class is bound to a constructor that
fills the registered fields -/
structure New (n s : Nat) (name : String) (c : ClassInfo) (qualified : List (String × String)) (w : World)
    (cell : Nat) (u : World) : Prop where
  bound : ∃ k included, (w.scope s).find? name = some (.callable k) ∧
    w.callable k = .constructor name c.fields qualified included
  run : (machine (n + 2)).exec (.call (.var name) [] []) s w = .ok (.dict cell) u

namespace New

variable {n s cell : Nat} {name : String} {c : ClassInfo} {qualified : List (String × String)} {w u : World}

/-- a new instance holds the values of the defaults of its fields, and nothing else -/
theorem entries (h : New n s name c qualified w cell u) : ∃ values u₀,
    c.fields.mapM (fieldValue (machine n) qualified) w = .ok values u₀ ∧
    u.dict cell = Dict.instance name (c.fields.map Prod.fst) values := by
  obtain ⟨k, included, hname, hk⟩ := h.bound
  have hvar : (machine (n + 1)).exec (.var name) s w = .ok (.callable k) w := by
    show lookup s name w = _
    rw [lookup, bind_run, get_run]
    simp only [hname]
    rfl
  have hcall := Evaluates.exec_callable (.intro hvar .nil .nil : Evaluates (machine (n + 1)) s (.var name) [] [] w
    (.callable k) [] .empty w) (by rw [hk]; rfl)
  have hrun := h.run
  rw [hcall, callValue, bind_run, get_run] at hrun
  simp only [hk] at hrun
  rw [construct_eq] at hrun
  obtain ⟨values, u₀, hvalues, hnew⟩ := bind_ok hrun
  cases hnew
  refine ⟨values, u₀, hvalues, ?_⟩
  show (u₀.dicts.push _).getD u₀.dicts.size .empty = _
  rw [Array.getD_eq_getD_getElem?, Array.getElem?_push_size]
  rfl

/-- an attribute of a new instance is looked up in its class -/
theorem reads (h : New n s name c qualified w cell u) (htype : "__type__" ∉ c.fields.map Prod.fst) (attr : String) :
    (machine (n + 3)).exec (.getAttr (.call (.var name) [] []) attr) s w =
      instanceAttribute cell (.str name) attr u := by
  obtain ⟨values, u₀, -, hd⟩ := h.entries
  rw [exec_getAttr h.run, getAttribute_instance]
  rw [hd, Dict.get?_instance_of_notMem htype, if_pos rfl]

/-- a field that the class itself declares has the value of its default: of the last one, if there are several,
evaluated after those before it -/
theorem get?_field (h : New n s name c qualified w cell u) {f : String} {value : Option Node}
    {before after : List (String × Option Node)} (hfields : c.fields = before ++ (f, value) :: after)
    (hlast : f ∉ after.map Prod.fst) : ∃ values w₁ v w₂,
    before.mapM (fieldValue (machine n) qualified) w = .ok values w₁ ∧
    fieldValue (machine n) qualified (f, value) w₁ = .ok v w₂ ∧ (u.dict cell).get? f = some v := by
  obtain ⟨all, u₀, hall, hd⟩ := h.entries
  rw [hfields, List.mapM_append] at hall
  obtain ⟨values, w₁, hvalues, hall⟩ := bind_ok hall
  obtain ⟨more, w₃, hmore, hall⟩ := bind_ok hall
  cases hall
  rw [List.mapM_cons] at hmore
  obtain ⟨v, w₂, hv, hmore⟩ := bind_ok hmore
  obtain ⟨rest, w₄, -, hmore⟩ := bind_ok hmore
  cases hmore
  refine ⟨values, w₁, v, w₂, hvalues, hv, ?_⟩
  have hlength : (before.map Prod.fst).length = values.length := by
    rw [List.length_map, length_of_mapM hvalues]
  rw [hd, hfields, List.map_append, List.map_cons, Dict.instance, List.zip_append hlength, List.zip_cons_cons]
  refine Dict.get?_putAll_append _ _ _ _ fun hm => hlast ?_
  obtain ⟨p, hp, rfl⟩ := List.mem_map.1 hm
  exact (List.of_mem_zip hp).1

/-- a field that the class itself does not declare has no entry -/
theorem get?_eq_none (h : New n s name c qualified w cell u) {f : String} (hf : ¬ c.HasField f)
    (hne : f ≠ "__type__") : (u.dict cell).get? f = none := by
  obtain ⟨values, u₀, -, hd⟩ := h.entries
  have hnot : f ∉ c.fields.map Prod.fst := by
    intro hm
    obtain ⟨p, hp, rfl⟩ := List.mem_map.1 hm
    exact hf ⟨p.2, hp⟩
  rw [hd, Dict.get?_instance_of_notMem hnot, if_neg hne]

end New

/-! ## inherited fields -/

/-- **An inherited field is empty.** Let a class `D` have an ancestor `B` that declares a field `f`, where no class
that is looked at before `B` has something for `f`. Then `D().f` is null, and `B().f` is the value of the default of
`f`, so the two are the same only if this value is null. A method that `B` has for `f` goes before the field: then
both are this method, bound to the new instance. -/
theorem inherited_field_empty {t : ClassTable} {D B f : String} {cD cB : ClassInfo} {value : Option Node}
    {before after : List (String × Option Node)} (hac : t.Acyclic) (hpath : TransGen t.Parent D B)
    (hnone : t.NoneBefore D B f) (hD : t.find? D = some cD) (hB : t.find? B = some cB)
    (hfields : cB.fields = before ++ (f, value) :: after) (hlast : f ∉ after.map Prod.fst)
    (htypeD : "__type__" ∉ cD.fields.map Prod.fst) (htypeB : "__type__" ∉ cB.fields.map Prod.fst)
    {n s cell n' s' cell' : Nat} {qualified qualified' : List (String × String)} {w u w' u' : World}
    (hnewD : New n s D cD qualified w cell u) (hu : u.classes = t)
    (hnewB : New n' s' B cB qualified' w' cell' u') (hu' : u'.classes = t) :
    let attributeD := (machine (n + 3)).exec (.getAttr (.call (.var D) [] []) f) s w
    let attributeB := (machine (n' + 3)).exec (.getAttr (.call (.var B) [] []) f) s' w'
    (¬ cB.HasMethod B f → attributeD = .ok .null u ∧ ∃ values w₁ v w₂,
      before.mapM (fieldValue (machine n') qualified') w' = .ok values w₁ ∧
      fieldValue (machine n') qualified' (f, value) w₁ = .ok v w₂ ∧ attributeB = .ok v u') ∧
    ∀ function, cB.method? B f = some function →
      attributeD = .ok (.callable u.callables.size)
        { u with callables := u.callables.push (.method function (.dict cell)) } ∧
      attributeB = .ok (.callable u'.callables.size)
        { u' with callables := u'.callables.push (.method function (.dict cell')) } := by
  intro attributeD attributeB
  have hfield : cB.HasField f := ⟨value, by rw [hfields]; exact List.mem_append_right _ List.mem_cons_self⟩
  have hboth : ∀ {found}, cB.own? B f = some found →
      u.classes.lookup? (.str D) f = some found ∧ u'.classes.lookup? (.str B) f = some found := by
    intro found hown
    rw [hu, hu']
    exact ⟨ClassTable.search_eq_own? hac hpath hnone hB hown, ClassTable.search_own? hac hB hown⟩
  have hattrD : attributeD = instanceAttribute cell (.str D) f u := hnewD.reads htypeD f
  have hattrB : attributeB = instanceAttribute cell' (.str B) f u' := hnewB.reads htypeB f
  rw [hattrD, hattrB]
  constructor
  · intro hmethod
    have hown : cB.own? B f = some .field := by
      rw [ClassInfo.own?_eq, ClassInfo.method?_eq_none_iff.2 hmethod, if_pos (ClassInfo.any_fields_iff.2 hfield)]
      rfl
    obtain ⟨hlD, hlB⟩ := hboth hown
    have hne : f ≠ "__type__" := by
      rintro rfl
      obtain ⟨v, hm⟩ := hfield
      exact htypeB (List.mem_map.2 ⟨_, hm, rfl⟩)
    have hempty := hnewD.get?_eq_none (ClassTable.not_hasField_of_noneBefore hac hpath hnone hB hD) hne
    obtain ⟨values, w₁, v, w₂, hvalues, hv, hentry⟩ := hnewB.get?_field hfields hlast
    rw [instanceAttribute_field hlD, instanceAttribute_field hlB, hempty, hentry]
    exact ⟨rfl, values, w₁, v, w₂, hvalues, hv, rfl⟩
  · intro function hmethod
    have hown : cB.own? B f = some (.method function) := by
      rw [ClassInfo.own?_eq, hmethod]
      rfl
    obtain ⟨hlD, hlB⟩ := hboth hown
    exact ⟨instanceAttribute_method hlD, instanceAttribute_method hlB⟩

/-- the class `D` has the parents `M` and `R`, where `R` has `f = "r"`, and `M` has the parent `B`, where `f = "q"` -/
def heirs : ClassTable where
  classes := [("B", ⟨[("f", some (.str "q"))], none, []⟩), ("M", ⟨[("g", none)], some ["B"], []⟩),
    ("R", ⟨[("f", some (.str "r"))], none, []⟩), ("D", ⟨[], some ["M", "R"], []⟩)]

theorem acyclic_heirs : heirs.Acyclic := by
  refine ClassTable.acyclic_of_rank (fun name => if name = "D" then 2 else if name = "M" then 1 else 0) ?_
  rintro child parent ⟨c, hc, hp⟩
  have hm := mem_of_lookup hc
  simp only [heirs, List.mem_cons, Prod.mk.injEq, List.not_mem_nil, or_false] at hm
  rcases hm with ⟨rfl, rfl⟩ | ⟨rfl, rfl⟩ | ⟨rfl, rfl⟩ | ⟨rfl, rfl⟩
  · simp at hp
  · obtain rfl : parent = "B" := by simpa using hp
    decide
  · simp at hp
  · obtain rfl | rfl : parent = "M" ∨ parent = "R" := by simpa using hp
    all_goals decide

theorem lookupOrder_heirs : heirs.LookupOrder ["D"] ["D", "M", "B", "R"] := by
  have hR : heirs.LookupOrder ["R"] ("R" :: ([] ++ [])) := .present rfl .done .done
  have hB : heirs.LookupOrder ["B"] ("B" :: ([] ++ [])) := .present rfl .done .done
  have hparents : heirs.LookupOrder ["M", "R"] ("M" :: (["B"] ++ ["R"])) := .present rfl hB hR
  have hD : heirs.LookupOrder ["D"] ("D" :: (["M", "B", "R"] ++ [])) := .present rfl hparents .done
  exact hD

theorem noneBefore_heirs : heirs.NoneBefore "D" "B" "f" := by
  intro before after h hb name hn c hc hhas
  have horder : before ++ "B" :: after = ["D", "M", "B", "R"] := h.unique lookupOrder_heirs
  obtain rfl : before = ["D", "M"] := by
    have hother : ∀ a ∈ before, (a != "B") = true := fun a ha => bne_iff_ne.2 fun he => hb (he ▸ ha)
    have hwhile := congrArg (List.takeWhile (· != "B")) horder
    rw [List.takeWhile_append_of_pos hother, List.takeWhile_cons_of_neg (by decide), List.append_nil] at hwhile
    exact hwhile
  have hown : c.own? name "f" ≠ none := fun hnone => ClassInfo.own?_eq_none_iff.1 hnone hhas
  obtain rfl | rfl : name = "D" ∨ name = "M" := by simpa using hn
  all_goals
    cases hc
    exact hown rfl

def World.heirs : World :=
  { (default : World) with
    scopes := #[⟨[("D", .callable 0), ("B", .callable 1)], none⟩]
    classes := BraceScript.heirs
    callables := #[.constructor "D" [] [] false, .constructor "B" [("f", some (.str "q"))] [] false] }

/-- `B().f` is `"q"`, but `D().f` is null -/
theorem inherited_field_empty_heirs :
    (machine 4).exec (.getAttr (.call (.var "D") [] []) "f") 0 World.heirs =
      .ok .null { World.heirs with dicts := #[.instance "D" [] []] } ∧
    (machine 4).exec (.getAttr (.call (.var "B") [] []) "f") 0 World.heirs =
      .ok (.str "q") { World.heirs with dicts := #[.instance "B" ["f"] [.str "q"]] } := by
  have hpath : TransGen heirs.Parent "D" "B" :=
    .tail (.single ⟨_, rfl, by decide⟩) (⟨_, rfl, by decide⟩ : heirs.Parent "M" "B")
  have hfields : (⟨[("f", some (.str "q"))], none, []⟩ : ClassInfo).fields = [] ++ ("f", some (.str "q")) :: [] := rfl
  have hD : New 1 0 "D" ⟨[], some ["M", "R"], []⟩ [] World.heirs 0
      { World.heirs with dicts := #[.instance "D" [] []] } := ⟨⟨0, false, rfl, rfl⟩, rfl⟩
  have hB : New 1 0 "B" ⟨[("f", some (.str "q"))], none, []⟩ [] World.heirs 0
      { World.heirs with dicts := #[.instance "B" ["f"] [.str "q"]] } := ⟨⟨1, false, rfl, rfl⟩, rfl⟩
  have hmethod : ¬ ClassInfo.HasMethod ⟨[("f", some (.str "q"))], none, []⟩ "B" "f" :=
    ClassInfo.method?_eq_none_iff.1 rfl
  have h := inherited_field_empty acyclic_heirs hpath noneBefore_heirs rfl rfl hfields List.not_mem_nil List.not_mem_nil
    (by decide) hD rfl hB rfl
  obtain ⟨hnull, values, w₁, v, w₂, hvalues, hv, hread⟩ := h.1 hmethod
  cases hvalues
  cases hv
  exact ⟨hnull, hread⟩

end BraceScript
