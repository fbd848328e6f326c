import BraceScript.Store.World

/-!
# Names that are bound

What is found under a name after names were bound in a table, a scope or a dictionary.

* `lookup_cons_eq`, `lookup_of_mem`, ...   tables of names
* `Scope.find?_insert`, `Scope.find?_putAll`   variables of a scope
* `Dict.get?_insert`, `Dict.get?_putAll`       entries of a dictionary whose keys are texts
* `Dict.Distinct`                              dictionaries without two entries under one key
* `Dict.without`                               what is left without some names
-/

namespace BraceScript

/-! ## tables -/

section
variable {α : Type} {xs : List (String × α)} {name : String} {x : α}

theorem lookup_cons_eq (k b : String) (v : α) (xs : List (String × α)) :
    ((k, v) :: xs).lookup b = if b = k then some v else xs.lookup b := by
  rw [List.lookup_cons]
  by_cases h : b = k
  · simp [h]
  · simp only [beq_eq_false_iff_ne.2 h, if_neg h]

theorem lookup_of_mem (hn : (xs.map Prod.fst).Nodup) (h : (name, x) ∈ xs) : xs.lookup name = some x := by
  induction xs with
  | nil => cases h
  | cons p xs ih =>
    obtain ⟨k, y⟩ := p
    rw [List.map_cons, List.nodup_cons] at hn
    rw [lookup_cons_eq]
    rcases List.mem_cons.mp h with he | hm
    · cases he
      rw [if_pos rfl]
    · have hk : name ≠ k := fun he => hn.1 (List.mem_map.mpr ⟨(name, x), hm, he⟩)
      rw [if_neg hk]
      exact ih hn.2 hm

theorem mem_of_lookup (h : xs.lookup name = some x) : (name, x) ∈ xs := by
  induction xs with
  | nil => cases h
  | cons p xs ih =>
    obtain ⟨k, y⟩ := p
    rw [lookup_cons_eq] at h
    split at h
    · rename_i he
      cases h
      rw [he]
      exact List.mem_cons_self
    · exact List.mem_cons_of_mem _ (ih h)

theorem lookup_eq_none (h : name ∉ xs.map Prod.fst) : xs.lookup name = none := by
  cases hl : xs.lookup name with
  | none => rfl
  | some x => exact absurd (List.mem_map.mpr ⟨_, mem_of_lookup hl, rfl⟩) h

theorem nodup_zip {names : List String} (hn : names.Nodup) (vs : List α) :
    ((names.zip vs).map Prod.fst).Nodup := by
  rw [List.zip_eq_zip_take_min, List.map_fst_zip (by simp)]
  exact hn.sublist (List.take_sublist _ _)

/-- a name stands for the value in its place -/
theorem lookup_zip {names : List String} {vs : List α} {i : Nat} (hn : names.Nodup) (h : names[i]? = some name) :
    (names.zip vs).lookup name = vs[i]? := by
  induction names generalizing vs i with
  | nil => cases h
  | cons k names ih =>
    rw [List.nodup_cons] at hn
    cases vs with
    | nil => rfl
    | cons v vs =>
      rw [List.zip_cons_cons, lookup_cons_eq]
      cases i with
      | zero =>
        cases h
        rw [if_pos rfl]
        rfl
      | succ i =>
        rw [List.getElem?_cons_succ] at h
        have hk : name ≠ k := fun he => hn.1 (he ▸ List.mem_of_getElem? h)
        rw [if_neg hk, ih hn.2 h, List.getElem?_cons_succ]

end

/-! ## scopes -/

namespace Scope

/-- no name is bound twice -/
def Distinct (s : Scope) : Prop := (s.vars.map Prod.fst).Nodup

theorem replaceIn_cases (name : String) (v : Value) (vars : List (String × Value)) :
    (replaceIn name v vars = none ∧ name ∉ vars.map Prod.fst) ∨
      ∃ vars', replaceIn name v vars = some vars' ∧ vars'.map Prod.fst = vars.map Prod.fst ∧
        ∀ other, vars'.lookup other = if other = name then some v else vars.lookup other := by
  induction vars with
  | nil => exact Or.inl ⟨rfl, List.not_mem_nil⟩
  | cons p vars ih =>
    obtain ⟨k, u⟩ := p
    rw [replaceIn]
    by_cases hk : k = name
    · refine Or.inr ⟨(k, v) :: vars, by rw [if_pos hk], rfl, fun other => ?_⟩
      rw [lookup_cons_eq, lookup_cons_eq, hk]
      by_cases ho : other = name
      · rw [if_pos ho, if_pos ho]
      · rw [if_neg ho, if_neg ho, if_neg ho]
    · rw [if_neg hk]
      rcases ih with ⟨hr, hn⟩ | ⟨vars', hr, hm, hl⟩
      · refine Or.inl ⟨by rw [hr]; rfl, ?_⟩
        rw [List.map_cons, List.mem_cons, not_or]
        exact ⟨Ne.symm hk, hn⟩
      · refine Or.inr ⟨(k, u) :: vars', by rw [hr]; rfl, by rw [List.map_cons, List.map_cons, hm], ?_⟩
        intro other
        rw [lookup_cons_eq, lookup_cons_eq, hl]
        by_cases ho : other = k
        · rw [if_pos ho, if_pos ho, if_neg (ho ▸ hk)]
        · rw [if_neg ho, if_neg ho]

theorem find?_insert (s : Scope) (name other : String) (v : Value) :
    (s.insert name v).find? other = if other = name then some v else s.find? other := by
  unfold insert
  rcases replaceIn_cases name v s.vars with ⟨hr, -⟩ | ⟨vars', hr, -, hl⟩
  · rw [hr]
    exact lookup_cons_eq name other v s.vars
  · rw [hr]
    exact hl other

theorem unnamed_insert (s : Scope) (name : String) (v : Value) : (s.insert name v).unnamed = s.unnamed := by
  unfold insert
  split <;> rfl

theorem Distinct.insert {s : Scope} (h : s.Distinct) (name : String) (v : Value) :
    (s.insert name v).Distinct := by
  unfold Scope.insert
  rcases replaceIn_cases name v s.vars with ⟨hr, hn⟩ | ⟨vars', hr, hm, -⟩
  · rw [hr]
    exact List.nodup_cons.mpr ⟨hn, h⟩
  · rw [hr]
    show (vars'.map Prod.fst).Nodup
    rw [hm]
    exact h

/-- bind names to values -/
def putAll (s : Scope) (ms : List (String × Value)) : Scope := ms.foldl (fun s p => s.insert p.1 p.2) s

theorem unnamed_putAll (s : Scope) (ms : List (String × Value)) : (s.putAll ms).unnamed = s.unnamed := by
  induction ms generalizing s with
  | nil => rfl
  | cons p ms ih =>
    rw [putAll, List.foldl_cons]
    exact (ih _).trans (s.unnamed_insert p.1 p.2)

theorem find?_putAll (s : Scope) {ms : List (String × Value)} (hn : (ms.map Prod.fst).Nodup)
    (name : String) : (s.putAll ms).find? name = (ms.lookup name).or (s.find? name) := by
  induction ms generalizing s with
  | nil => rfl
  | cons p ms ih =>
    rw [List.map_cons, List.nodup_cons] at hn
    have hrest := ih (s.insert p.1 p.2) hn.2
    rw [find?_insert] at hrest
    refine Eq.trans hrest ?_
    rw [lookup_cons_eq]
    by_cases h : name = p.1
    · rw [if_pos h, if_pos h, lookup_eq_none (h ▸ hn.1)]
      rfl
    · rw [if_neg h, if_neg h]

/-- each name of a list bound to the value in its place -/
theorem find?_putAll_zip (s : Scope) {names : List String} {vs : List Value} (hn : names.Nodup)
    (hl : vs.length = names.length) (name : String) :
    (s.putAll (names.zip vs)).find? name =
      if name ∈ names then (names.zip vs).lookup name else s.find? name := by
  rw [s.find?_putAll (nodup_zip hn vs)]
  split
  · rename_i hm
    obtain ⟨i, hi, rfl⟩ := List.getElem_of_mem hm
    rw [lookup_zip hn (List.getElem?_eq_getElem hi), List.getElem?_eq_getElem (hl.symm ▸ hi)]
    rfl
  · rename_i hm
    have hfst : (names.zip vs).map Prod.fst = names := List.map_fst_zip (Nat.le_of_eq hl.symm)
    rw [lookup_eq_none (hfst.symm ▸ hm)]
    rfl

theorem find?_putAll_of_getElem? (s : Scope) {names : List String} {vs : List Value} {i : Nat} {name : String}
    {v : Value} (hn : names.Nodup) (hi : names[i]? = some name) (hv : vs[i]? = some v) :
    (s.putAll (names.zip vs)).find? name = some v := by
  rw [s.find?_putAll (nodup_zip hn vs), lookup_zip hn hi, hv]
  rfl

theorem Distinct.putAll {s : Scope} (h : s.Distinct) (ms : List (String × Value)) :
    (s.putAll ms).Distinct := by
  induction ms generalizing s with
  | nil => exact h
  | cons p ms ih => exact ih (h.insert p.1 p.2)

end Scope

/-! ## dictionaries -/

namespace Dict

variable {d : Dict} {names : List String} {name : String}

theorem sameKey_str (k : Value) (name : String) : k.sameKey (.str name) = true ↔ k = .str name := by
  unfold Value.sameKey
  by_cases h : k = .str name
  · rw [if_pos h]
    exact iff_of_true rfl h
  · rw [if_neg h]
    refine iff_of_false ?_ h
    cases k <;> exact Bool.false_ne_true

theorem findIn_cons (name : String) (k u : Value) (entries : List (Value × Value)) :
    findIn (.str name) ((k, u) :: entries) = if k = .str name then some u else findIn (.str name) entries := by
  rw [findIn]
  simp only [sameKey_str]

theorem insertIn_cons (name : String) (v k u : Value) (entries : List (Value × Value)) :
    insertIn (.str name) v ((k, u) :: entries) =
      if k = .str name then (k, v) :: entries else (k, u) :: insertIn (.str name) v entries := by
  rw [insertIn]
  simp only [sameKey_str]

theorem get?_insert (d : Dict) (name other : String) (v : Value) :
    (d.insert (.str name) v).get? other = if other = name then some v else d.get? other := by
  obtain ⟨entries⟩ := d
  show findIn (.str other) (insertIn (.str name) v entries) = if other = name then _ else findIn (.str other) entries
  have hsame : Value.str name = .str other ↔ other = name := by rw [Value.str.injEq, eq_comm]
  induction entries with
  | nil =>
    rw [insertIn, findIn_cons]
    by_cases h : other = name
    · rw [if_pos h, if_pos (hsame.mpr h)]
    · rw [if_neg h, if_neg (mt hsame.mp h)]
  | cons e entries ih =>
    obtain ⟨k, u⟩ := e
    rw [insertIn_cons, findIn_cons]
    by_cases hk : k = .str name
    · rw [if_pos hk, findIn_cons, hk]
      by_cases h : other = name
      · rw [if_pos h, if_pos (hsame.mpr h)]
      · rw [if_neg h, if_neg (mt hsame.mp h), if_neg (mt hsame.mp h)]
    · rw [if_neg hk, findIn_cons, ih]
      by_cases ho : k = .str other
      · have hne : ¬ other = name := fun he => hk (he ▸ ho)
        rw [if_pos ho, if_pos ho, if_neg hne]
      · rw [if_neg ho, if_neg ho]

theorem mem_entries_insert {key value : Value} {e : Value × Value}
    (h : e ∈ (d.insert key value).entries) : (e.1 = key ∨ e.1 ∈ d.keys) ∧ (e.2 = value ∨ e.2 ∈ d.values) := by
  obtain ⟨entries⟩ := d
  show (e.1 = key ∨ e.1 ∈ entries.map Prod.fst) ∧ (e.2 = value ∨ e.2 ∈ entries.map Prod.snd)
  replace h : e ∈ insertIn key value entries := h
  induction entries with
  | nil =>
    obtain rfl := List.mem_singleton.mp h
    exact ⟨Or.inl rfl, Or.inl rfl⟩
  | cons p entries ih =>
    rw [insertIn] at h
    rw [List.map_cons, List.map_cons, List.mem_cons, List.mem_cons]
    split at h
    · rcases List.mem_cons.mp h with rfl | hm
      · exact ⟨Or.inr (Or.inl rfl), Or.inl rfl⟩
      · exact ⟨Or.inr (Or.inr (List.mem_map_of_mem hm)), Or.inr (Or.inr (List.mem_map_of_mem hm))⟩
    · rcases List.mem_cons.mp h with rfl | hm
      · exact ⟨Or.inr (Or.inl rfl), Or.inr (Or.inl rfl)⟩
      · have hrest := ih hm
        exact ⟨hrest.1.imp_right Or.inr, hrest.2.imp_right Or.inr⟩

def putAll (d : Dict) (ms : List (String × Value)) : Dict := ms.foldl (fun d p => d.insert (.str p.1) p.2) d

theorem get?_putAll (d : Dict) {ms : List (String × Value)} (hn : (ms.map Prod.fst).Nodup) (name : String) :
    (d.putAll ms).get? name = (ms.lookup name).or (d.get? name) := by
  induction ms generalizing d with
  | nil => rfl
  | cons p ms ih =>
    rw [List.map_cons, List.nodup_cons] at hn
    have hrest := ih (d.insert (.str p.1) p.2) hn.2
    rw [get?_insert] at hrest
    refine Eq.trans hrest ?_
    rw [lookup_cons_eq]
    by_cases h : name = p.1
    · rw [if_pos h, if_pos h, lookup_eq_none (h ▸ hn.1)]
      rfl
    · rw [if_neg h, if_neg h]

theorem get?_putAll_of_getElem? (d : Dict) {vs : List Value} {i : Nat} {v : Value} (hn : names.Nodup)
    (hi : names[i]? = some name) (hv : vs[i]? = some v) : (d.putAll (names.zip vs)).get? name = some v := by
  rw [d.get?_putAll (nodup_zip hn vs), lookup_zip hn hi, hv]
  rfl

/-- what is found under a name has a place among the entries -/
theorem getElem?_of_get? {v : Value} (h : d.get? name = some v) :
    ∃ j : Nat, d.entries[j]? = some (.str name, v) := by
  obtain ⟨entries⟩ := d
  replace h : findIn (.str name) entries = some v := h
  induction entries with
  | nil => cases h
  | cons e entries ih =>
    obtain ⟨k, u⟩ := e
    rw [findIn_cons] at h
    split at h
    · rename_i hk
      cases h
      exact ⟨0, by rw [hk]; rfl⟩
    · obtain ⟨j, hj⟩ := ih h
      exact ⟨j + 1, hj⟩

/-! ## keys that are there once -/

/-- no key is there twice -/
def Distinct (d : Dict) : Prop := d.keys.Nodup

theorem distinct_empty : Distinct .empty := List.nodup_nil

theorem Distinct.insert (h : d.Distinct) (key value : Value) : (d.insert key value).Distinct := by
  obtain ⟨entries⟩ := d
  show ((insertIn key value entries).map Prod.fst).Nodup
  replace h : (entries.map Prod.fst).Nodup := h
  induction entries with
  | nil => exact List.nodup_cons.mpr ⟨List.not_mem_nil, List.nodup_nil⟩
  | cons e entries ih =>
    obtain ⟨k, u⟩ := e
    rw [List.map_cons, List.nodup_cons] at h
    rw [insertIn]
    split
    · exact List.nodup_cons.mpr h
    · rename_i hk
      refine List.nodup_cons.mpr ⟨fun hm => ?_, ih h.2⟩
      obtain ⟨e, he, rfl⟩ := List.mem_map.mp hm
      have hkey := (mem_entries_insert (d := ⟨entries⟩) he).1
      rcases hkey with hkey | hold
      · refine hk ?_
        unfold Value.sameKey
        rw [if_pos hkey]
      · exact h.1 hold

theorem Distinct.update (h : d.Distinct) (other : Dict) : (d.update other).Distinct := by
  obtain ⟨entries⟩ := other
  show (entries.foldl (fun d e => d.insert e.1 e.2) d).Distinct
  induction entries generalizing d with
  | nil => exact h
  | cons e entries ih => exact ih (h.insert e.1 e.2)

theorem Distinct.putAll (h : d.Distinct) (ms : List (String × Value)) : (d.putAll ms).Distinct := by
  induction ms generalizing d with
  | nil => exact h
  | cons p ms ih => exact ih (h.insert (.str p.1) p.2)

/-! ## what is left without some names -/

def without (d : Dict) (names : List String) : Dict :=
  ⟨d.entries.filter fun e => ∀ name ∈ names, e.1 ≠ .str name⟩

theorem Distinct.without (h : d.Distinct) (names : List String) : (d.without names).Distinct :=
  (List.filter_sublist.map Prod.fst).nodup h

theorem without_nil (d : Dict) : d.without [] = d := by
  unfold Dict.without
  rw [List.filter_eq_self.mpr fun e _ => by simp]

theorem without_cons (d : Dict) (name : String) (names : List String) :
    (d.without [name]).without names = d.without (name :: names) := by
  unfold Dict.without
  rw [List.filter_filter]
  congr 2
  funext e
  simp [Bool.and_comm]

/-- removing a key keeps the other entries in their order -/
theorem Distinct.erase_eq (h : d.Distinct) (name : String) : d.erase (.str name) = d.without [name] := by
  obtain ⟨entries⟩ := d
  show Dict.mk (eraseIn (.str name) entries) = ⟨entries.filter _⟩
  replace h : (entries.map Prod.fst).Nodup := h
  simp only [List.forall_mem_singleton]
  congr 1
  induction entries with
  | nil => rfl
  | cons e entries ih =>
    obtain ⟨k, u⟩ := e
    rw [List.map_cons, List.nodup_cons] at h
    rw [eraseIn]
    simp only [sameKey_str]
    by_cases hk : k = .str name
    · have hrest : entries.filter (fun e => e.1 ≠ .str name) = entries := by
        refine List.filter_eq_self.mpr fun e he => ?_
        exact decide_eq_true fun hn => h.1 (List.mem_map.mpr ⟨e, he, hn.trans hk.symm⟩)
      rw [if_pos hk, List.filter_cons_of_neg (by simp [hk]), hrest]
    · rw [if_neg hk, List.filter_cons_of_pos (by simp [hk]), ih h.2]

theorem get?_without (d : Dict) (h : name ∉ names) : (d.without names).get? name = d.get? name := by
  obtain ⟨entries⟩ := d
  show findIn _ (List.filter _ _) = findIn _ _
  induction entries with
  | nil => rfl
  | cons e entries ih =>
    obtain ⟨k, u⟩ := e
    rw [findIn_cons, List.filter_cons]
    split
    · rw [findIn_cons, ih]
    · rename_i hf
      have hk : ¬ k = .str name := by
        rintro rfl
        refine hf (decide_eq_true fun other ho he => h ?_)
        rw [Value.str.inj he]
        exact ho
      rw [if_neg hk, ih]

/-- a name under which nothing is found is no key -/
theorem notMem_keys (h : d.get? name = none) : .str name ∉ d.keys := by
  obtain ⟨entries⟩ := d
  replace h : findIn (.str name) entries = none := h
  show .str name ∉ entries.map Prod.fst
  induction entries with
  | nil => exact List.not_mem_nil
  | cons e entries ih =>
    obtain ⟨k, u⟩ := e
    rw [findIn_cons] at h
    split at h
    · cases h
    · rename_i hk
      rw [List.map_cons, List.mem_cons, not_or]
      exact ⟨fun he => hk he.symm, ih h⟩

theorem without_cons_of_none (h : d.get? name = none) (names : List String) :
    d.without (name :: names) = d.without names := by
  have hk := notMem_keys h
  unfold Dict.without
  congr 1
  refine List.filter_congr fun e he => ?_
  have hne : e.1 ≠ .str name := fun hn => hk (hn ▸ List.mem_map_of_mem he)
  simp [hne]

/-- nothing is left if every key is one of the names -/
theorem without_eq_empty (h : ∀ k ∈ d.keys, ∃ name ∈ names, k = .str name) : d.without names = .empty := by
  unfold Dict.without Dict.empty
  congr 1
  refine List.filter_eq_nil_iff.mpr fun e he => ?_
  obtain ⟨name, hn, hk⟩ := h e.1 (List.mem_map_of_mem he)
  simp only [decide_eq_true_eq]
  exact fun hall => hall name hn hk

/-- a key that is none of the names is left -/
theorem without_ne_nil {k : Value} (hk : k ∈ d.keys)
    (h : ∀ name ∈ names, k ≠ .str name) : (d.without names).entries ≠ [] := by
  obtain ⟨e, he, rfl⟩ := List.mem_map.mp hk
  have hm : e ∈ (d.without names).entries := List.mem_filter.mpr ⟨he, decide_eq_true h⟩
  exact List.ne_nil_of_mem hm

/-- removing a key that is there leaves one entry less -/
theorem Distinct.size_without (hd : d.Distinct) {v : Value}
    (h : d.get? name = some v) : (d.without [name]).size + 1 = d.size := by
  rw [← hd.erase_eq]
  obtain ⟨entries⟩ := d
  replace h : findIn (.str name) entries = some v := h
  show (eraseIn (.str name) entries).length + 1 = entries.length
  clear hd
  induction entries with
  | nil => cases h
  | cons e entries ih =>
    obtain ⟨k, u⟩ := e
    rw [findIn_cons] at h
    rw [eraseIn]
    simp only [sameKey_str]
    by_cases hk : k = .str name
    · rw [if_pos hk, List.length_cons]
    · rw [if_neg hk] at h
      rw [if_neg hk, List.length_cons, ih h, List.length_cons]

end Dict

end BraceScript
