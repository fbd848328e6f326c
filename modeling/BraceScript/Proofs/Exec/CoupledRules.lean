import BraceScript.Proofs.Exec.Coupling

/-!
# The rules on coupled machines

The rules of comprehensions, assignments, calls and constructors, and the rules of all trees together. Some
things are left to the coupling: trees that bind names in the scope of global variables, wherever they
are executed; the defaults of fields, which a constructor evaluates there; included files, whose trees come
from outside of the program; and trees that can be without a rule.

* `foldItemsOr_coupled`   going through a collection
* `evalCall_coupled`, `callValue_coupled`   calls
* `fieldDefault_coupled`, `construct_coupled`   instances
* `execPlain_coupled`     every tree that is not a declaration
* `Coupling.Unscoped`     couplings that do not look at scopes
* `machine_coupled`       machines of different fuel
-/

namespace BraceScript

open Exec

section
variable {C : Coupling} {m m' : Machine} (h : m.Coupled C m') (s : Nat) {l : Bool} {object index value : Node}
  {fuel fuel' : Nat}

/-! ## going through collections -/

section
variable {α : Type} {t : Option Nat} {f g : α → Value → Exec α}
  (hf : ∀ a v, C.Rel t l (f a v) (g a v))
include hf

theorem foldlM_coupled (vs : List Value) (a : α) : C.Rel t l (vs.foldlM f a) (vs.foldlM g a) := by
  induction vs generalizing a with
  | nil => exact C.pure a
  | cons v vs ih => exact C.bind (hf a v) fun b => ih b

theorem foldList_coupled (cell : Nat) (hl : C.Fuel fuel fuel') (i : Nat) (a : α) :
    C.Rel t l (foldList cell f fuel i a) (foldList cell g fuel' i a) := by
  induction fuel generalizing fuel' i a with
  | zero =>
    exact hl.zero (foldList cell g · i a) (fun w => ⟨w, rfl⟩) (C.steady steady_exhausted)
  | succ fuel ih =>
    obtain ⟨k, rfl, hk⟩ := hl.succ
    refine C.read fun w _ => ?_
    split
    · exact C.pure a
    · exact C.bind (hf a _) fun b => ih hk (i + 1) b

theorem foldDict_coupled (cell size : Nat) (hl : C.Fuel fuel fuel') (i : Nat)
    (a : α) : C.Rel t l (foldDict cell size f fuel i a) (foldDict cell size g fuel' i a) := by
  induction fuel generalizing fuel' i a with
  | zero =>
    exact hl.zero (foldDict cell size g · i a) (fun w => ⟨w, rfl⟩) (C.steady steady_exhausted)
  | succ fuel ih =>
    obtain ⟨k, rfl, hk⟩ := hl.succ
    have hn : ∀ v, C.Rel t l (f a v >>= fun b => foldDict cell size f fuel (i + 1) b)
        (g a v >>= fun b => foldDict cell size g k (i + 1) b) :=
      fun v => C.bind (hf a v) fun b => ih hk (i + 1) b
    refine C.read fun w _ => ?_
    dsimp only
    cases (w.dict cell).entries[i]? with
    | none =>
      split
      · exact C.bind (C.steady (steady_fail nofun)) fun _ => C.pure a
      · exact C.pure a
    | some p =>
      split
      · exact C.bind (C.steady (steady_fail nofun)) fun _ => hn p.1
      · exact hn p.1

theorem foldFile_coupled (cell : Nat) (hl : C.Fuel fuel fuel') (a : α) :
    C.Rel t l (foldFile cell f fuel a) (foldFile cell g fuel' a) := by
  induction fuel generalizing fuel' a with
  | zero => exact hl.zero (foldFile cell g · a) (fun w => ⟨w, rfl⟩) (C.steady steady_exhausted)
  | succ fuel ih =>
    obtain ⟨k, rfl, hk⟩ := hl.succ
    refine C.bind (C.steady (steady_readLine cell)) fun line => ?_
    split
    · exact C.pure a
    · exact C.bind (hf a _) fun b => ih hk b

theorem foldItemsOr_coupled {fault : Fault} (hn : ∀ t, fault ≠ .unknownNode t) (hl : C.Fuel fuel fuel')
    (v : Value) (a : α) : C.Rel t l (foldItemsOr fault fuel v f a) (foldItemsOr fault fuel' v g a) := by
  cases v with
  | list cell => exact foldList_coupled hf cell hl 0 a
  | dict cell =>
    exact C.read fun w _ => foldDict_coupled hf cell _ hl 0 a
  | file cell => exact foldFile_coupled hf cell hl a
  | _ => exact C.bind (C.steady (steady_itemsOr hn _)) fun vs => foldlM_coupled hf vs a

end

include h

/-! ## comprehensions and literals -/

/-- the conditions of a comprehension; more than one have no rule -/
theorem passes_coupled {conditions : List Node} (hc : ∀ t ∈ conditions, t.Obeys C.law l)
    (hu : 1 < conditions.length → ∀ t, C.Ends l (.fault (.unknownNode t))) :
    C.Rel (some s) l (passes m s conditions) (passes m' s conditions) := by
  cases conditions with
  | nil => exact C.pure _
  | cons c cs =>
    cases cs with
    | nil => exact C.bind (h.exec (hc c List.mem_cons_self) s) fun v => C.steady (steady_truth v)
    | cons d ds => exact C.read fun w _ => C.raise (hu (by simp) _)

theorem collectValue_coupled {body : Node} (hb : body.Obeys C.law l) (values : Nat) :
    C.Rel (some s) l (collectValue m s body values) (collectValue m' s body values) := by
  exact C.bind (h.exec hb s) fun v => C.steady (steady_modifyList _ _)

theorem collectPlaces_coupled {body : Node} (hb : body.Obeys C.law l) (var : String)
    (iterable : Value) {conditions : List Node} (hc : ∀ t ∈ conditions, t.Obeys C.law l)
    (hu : 1 < conditions.length → ∀ t, C.Ends l (.fault (.unknownNode t))) (values : Nat)
    (places : List Int) :
    C.Rel (some s) l (collectPlaces m s body var iterable conditions values places)
      (collectPlaces m' s body var iterable conditions values places) := by
  induction places with
  | nil => exact C.pure _
  | cons i rest ih =>
    refine C.bind (C.steady (steady_element _ _)) fun item => C.bind (C.bindName s var item) fun _ => ?_
    refine C.bind (passes_coupled h s hc hu) fun t => ?_
    cases t with
    | true => exact C.bind (collectValue_coupled h s hb values) fun _ => ih
    | false => exact ih

theorem comprehensionPlaces_coupled {iterable step : Node} (hi : iterable.Obeys C.law l)
    (hs : step.Obeys C.law l) :
    C.Rel (some s) l (comprehensionPlaces m s iterable step) (comprehensionPlaces m' s iterable step) := by
  refine C.bind (h.exec hi s) fun v => C.bind (h.exec hs s) fun t => ?_
  refine C.bind (C.steady (steady_length v)) fun n => C.bind (C.steady (steady_stepPlaces n t)) fun ps => ?_
  exact C.pure _

theorem evalListComp_coupled {body iterable step : Node} {var : String} {conditions : List Node}
    (hn : (Node.listComp body var iterable step conditions).Obeys C.law l)
    (hu : 1 < conditions.length → ∀ t, C.Ends l (.fault (.unknownNode t))) :
    C.Rel (some s) l (evalListComp m s body var iterable step conditions)
      (evalListComp m' s body var iterable step conditions) := by
  have hc : ∀ t ∈ conditions, t.Obeys C.law l := fun t ht =>
    hn.inner (by simp [Node.innerSteps, Node.inner, ht])
  have hb : body.Obeys C.law l := hn.inner (by simp [Node.innerSteps, Node.inner])
  have hi : iterable.Obeys C.law l := hn.inner (by simp [Node.innerSteps, Node.inner])
  have hs : step.Obeys C.law l := hn.inner (by simp [Node.innerSteps, Node.inner])
  refine C.read fun w _ => C.bind (C.steady (steady_newList _)) fun result => ?_
  refine C.read fun w' _ => C.bind (C.steady (steady_active _)) fun _ => ?_
  refine C.bind (comprehensionPlaces_coupled h s hi hs) fun p => ?_
  refine C.bind (collectPlaces_coupled h s hb var p.1 hc hu _ p.2) fun _ => ?_
  exact C.bind (C.steady (steady_active _)) fun _ => C.pure result

theorem evalDictComp_coupled {key iterable : Node} {var : String} {condition : Option Node}
    (hn : (Node.dictComp key value var iterable condition).Obeys C.law l) :
    C.Rel (some s) l (evalDictComp m s key value var iterable condition)
      (evalDictComp m' s key value var iterable condition) := by
  have hc : ∀ t ∈ condition.toList, t.Obeys C.law l := fun t ht =>
    hn.inner (List.mem_cons_of_mem _ (List.mem_cons_of_mem _ (List.mem_cons_of_mem _ ht)))
  have hu : ¬ 1 < condition.toList.length := by
    cases condition <;> simp
  refine C.bind (h.exec (hn.inner (by simp [Node.innerSteps, Node.inner])) s) fun v => ?_
  refine C.bind ?_ fun d => C.steady (steady_newDict d)
  refine foldItemsOr_coupled (fun d item => ?_) (by simp) h.fuel v _
  refine C.bind (C.bindName s var item) fun _ => ?_
  refine C.bind (passes_coupled h s hc fun hl => absurd hl hu) fun t => ?_
  cases t with
  | false => exact C.pure d
  | true =>
    refine C.bind (operands_coupled h s (hn.inner (by simp [Node.innerSteps, Node.inner]))
      (hn.inner (by simp [Node.innerSteps, Node.inner]))) fun p => ?_
    exact C.bind (C.steady (steady_checkKey _)) fun _ => C.pure _

theorem evalEntries_coupled (d : Dict) {entries : List (Node × Node)}
    (he : ∀ p ∈ entries, p.1.Obeys C.law l ∧ p.2.Obeys C.law l) :
    C.Rel (some s) l (evalEntries m s d entries) (evalEntries m' s d entries) := by
  induction entries generalizing d with
  | nil => exact C.pure d
  | cons p rest ih =>
    rw [List.forall_mem_cons] at he
    exact C.bind (operands_coupled h s he.1.1 he.1.2) fun q =>
      C.bind (C.steady (steady_checkKey _)) fun _ => ih _ he.2

theorem evalItems_coupled (acc : Array Value) {items : List Node}
    (hi : ∀ t ∈ items, t.Obeys C.law l) :
    C.Rel (some s) l (evalItems m s acc items) (evalItems m' s acc items) := by
  induction items generalizing acc with
  | nil => exact C.pure acc
  | cons e rest ih =>
    rw [List.forall_mem_cons] at hi
    exact C.bind (h.exec hi.1 s) fun v => ih _ hi.2

/-! ## assignments and items -/

theorem evalAssign_coupled (name : String) (hv : value.Obeys C.law l) :
    C.Rel (some s) l (evalAssign m s name value) (evalAssign m' s name value) := by
  have hb : C.Rel (some s) l (m.exec value s >>= fun v => do bindName s name v; return v)
      (m'.exec value s >>= fun v => do bindName s name v; return v) :=
    C.bind (h.exec hv s) fun v => C.bind (C.bindName s name v) fun _ => C.pure v
  cases value with
  | keywordUnpack e =>
    refine C.bind (h.exec (hv.inner List.mem_cons_self) s) fun v => ?_
    cases v with
    | dict cell =>
      exact C.bind (C.steady (steady_newTuple (by simp))) fun t =>
        C.bind (C.bindName s name t) fun _ => C.pure t
    | _ => exact C.steady (steady_fail nofun)
  | _ => exact hb

theorem evalAugAssign_coupled (name : String) (op : AugOp) (hv : value.Obeys C.law l) :
    C.Rel (some s) l (evalAugAssign m s name op value) (evalAugAssign m' s name op value) := by
  refine C.read fun w _ => ?_
  split
  · exact C.steady (steady_fail nofun)
  · refine C.bind (applyUpdate_coupled s op (steady_pure _) (h.exec hv s)) fun v => ?_
    exact C.bind (C.bindName s name v) fun _ => C.pure v

theorem evalAugAttr_coupled (ho : object.Obeys C.law l) (attr : String) (op : AugOp)
    (hv : value.Obeys C.law l) : C.Rel (some s) l (evalAugAttr m s object attr op value)
      (evalAugAttr m' s object attr op value) := by
  refine C.bind (h.exec ho s) fun o => ?_
  split
  · refine C.read fun w _ => ?_
    refine C.bind (applyUpdate_coupled s op (steady_pure _) (h.exec hv s)) fun v => ?_
    exact C.steady (steady_bind (steady_putKey _ _ _) fun _ => steady_pure v)
  · exact C.steady (steady_bind (steady_plain _) fun _ => steady_fail nofun)

theorem evalAugIndex_coupled (ho : object.Obeys C.law l) (hi : index.Obeys C.law l) (op : AugOp)
    (hv : value.Obeys C.law l) : C.Rel (some s) l (evalAugIndex m s object index op value)
      (evalAugIndex m' s object index op value) := by
  refine C.bind (operands_coupled h s ho hi) fun p => ?_
  refine C.bind (applyUpdate_coupled s op (steady_element _ _) (h.exec hv s)) fun v => ?_
  exact C.steady (steady_bind (steady_putElement _ _ _) fun _ => steady_pure _)

theorem evalSetIndex_coupled (ho : object.Obeys C.law l) (hi : index.Obeys C.law l) (hv : value.Obeys C.law l) :
    C.Rel (some s) l (evalSetIndex m s object index value)
      (evalSetIndex m' s object index value) := by
  refine C.bind (operands_coupled h s ho hi) fun p => C.bind (h.exec hv s) fun v => ?_
  split
  · exact C.steady (steady_bind (steady_putElement _ _ _) fun _ => steady_pure v)
  · exact C.steady (steady_bind (steady_putElement _ _ _) fun _ => steady_pure v)
  · exact C.steady (steady_bind (steady_plain _) fun _ => steady_fail nofun)

theorem evalGetItem_coupled (ho : object.Obeys C.law l) (hi : index.Obeys C.law l) :
    C.Rel (some s) l (evalGetItem m s object index) (evalGetItem m' s object index) := by
  refine C.bind (operands_coupled h s ho hi) fun p => C.steady ?_
  refine runs_tryCatch (steady_element _ _) fun signal hs => ?_
  split
  · rename_i f
    have hf : (fail f : Exec Value).Steady := steady_fail fun t e => hs.known t (by rw [e])
    split
    · exact steady_bind (steady_plain _) fun _ => steady_bind (steady_plain _) fun _ => steady_fail nofun
    · exact steady_bind (steady_plain _) fun _ => steady_bind (steady_plain _) fun _ => steady_fail nofun
    · exact steady_bind (steady_plain _) fun _ => steady_bind (steady_plain _) fun _ => steady_fail nofun
    · exact hf
  · exact steady_throw hs

theorem evalIndex_coupled (ho : object.Obeys C.law l) (hi : index.Obeys C.law l) :
    C.Rel (some s) l (evalIndex m s object index) (evalIndex m' s object index) := by
  refine C.bind (operands_coupled h s ho hi) fun ⟨c, i⟩ => C.steady ?_
  dsimp only
  split <;> simp

theorem evalSlice_coupled {start stop step : Option Node}
    (hn : (Node.slice object start stop step).Obeys C.law l) :
    C.Rel (some s) l (evalSlice m s object start stop step)
      (evalSlice m' s object start stop step) := by
  have ho : ∀ t, t ∈ start.toList ∨ t ∈ stop.toList ∨ t ∈ step.toList → t.Obeys C.law l := by
    intro t ht
    refine hn.inner (List.mem_cons_of_mem _ ?_)
    simpa only [List.mem_append, or_assoc] using ht
  have hs : ∀ c : Value, C.Rel (some s) l
      (do
        let start ← evalOption m s start
        let stop ← evalOption m s stop
        let step ← evalOption m s step
        slice c start stop step)
      (do
        let start ← evalOption m' s start
        let stop ← evalOption m' s stop
        let step ← evalOption m' s step
        slice c start stop step) := by
    intro c
    refine C.bind (evalOption_coupled h s fun t ht => ho t (.inl ht)) fun a => ?_
    refine C.bind (evalOption_coupled h s fun t ht => ho t (.inr (.inl ht))) fun b => ?_
    refine C.bind (evalOption_coupled h s fun t ht => ho t (.inr (.inr ht))) fun d => ?_
    exact C.steady (steady_slice c a b d)
  refine C.bind (h.exec (hn.inner List.mem_cons_self) s) fun c => ?_
  cases c with
  | list cell => exact hs _
  | str text => exact hs _
  | _ => exact C.bind (C.steady (steady_fail nofun)) fun _ => hs _

/-! ## instances -/

theorem fieldDefault_coupled (qualified : List (String × String)) {e : Node}
    (he : FieldDefault C.law e) :
    C.Rel (some s) false (fieldDefault m qualified s e) (fieldDefault m' qualified s e) := by
  fun_induction fieldDefault m qualified s e with
  | case1 name full hn =>
    simp only [fieldDefault, hn]
    exact C.pure _
  | case2 name hn =>
    simp only [fieldDefault, hn]
    exact h.exec he.tree s
  | case3 left attr ih =>
    have ha : ∀ l t, Node.Obeys t C.law l := he.access rfl
    rw [fieldDefault]
    refine C.bind (ih ⟨ha _ _, fun _ => ha⟩) fun object => C.read fun w _ => ?_
    repeat' split
    · exact C.pure _
    · exact C.steady (steady_fail nofun)
    · exact h.exec (ha _ _) s
  | case4 node h1 h2 =>
    have hn : fieldDefault m' qualified s node = m'.exec node s := by
      unfold fieldDefault
      split <;> simp_all
    rw [hn]
    exact h.exec he.tree s

omit h in
theorem construct_coupled
    (hd : ∀ qualified e, FieldDefault C.law e →
      C.Rel none false (get >>= fun w => fieldDefault m qualified w.globals e)
        (get >>= fun w => fieldDefault m' qualified w.globals e))
    (className : String) {fields : List (String × Option Node)}
    (hf : ∀ e ∈ fieldDefaults fields, FieldDefault C.law e) (qualified : List (String × String))
    (args : List Value) : C.Rel none false (construct m className fields qualified args)
      (construct m' className fields qualified args) := by
  have hs : ∀ d args, C.Rel none false (fillFields m qualified d fields args)
      (fillFields m' qualified d fields args) := by
    induction fields with
    | nil => exact fun d args => C.pure d
    | cons f fields ih =>
      intro d args
      obtain ⟨name, value⟩ := f
      rw [fieldDefaults_cons, List.forall_mem_append] at hf
      cases args with
      | cons v args => exact ih hf.2 _ args
      | nil =>
        cases value with
        | none => exact ih hf.2 _ []
        | some e =>
          rw [fillFields, fillFields, ← bind_assoc, ← bind_assoc]
          exact C.bind (hd qualified e (hf.1 e List.mem_cons_self)) fun v => ih hf.2 _ []
  exact C.bind (hs _ args) fun d => C.steady (steady_newDict d)

/-! ## arguments -/

theorem evalArguments_coupled (a : Arguments) {args : List Node}
    (ha : ∀ t ∈ args, t.Obeys C.law l) :
    C.Rel (some s) l (evalArguments m s a args) (evalArguments m' s a args) := by
  induction args generalizing a with
  | nil => exact C.pure a
  | cons e rest ih =>
    rw [List.forall_mem_cons] at ha
    have hp : C.Rel (some s) l
        (m.exec e s >>= fun v =>
          evalArguments m s { a with positional := a.positional ++ [v] } rest)
        (m'.exec e s >>= fun v =>
          evalArguments m' s { a with positional := a.positional ++ [v] } rest) :=
      C.bind (h.exec ha.1 s) fun v => ih _ ha.2
    cases e with
    | unpack e =>
      exact C.bind (h.exec (ha.1.inner List.mem_cons_self) s) fun v =>
        C.bind (C.steady (steady_addUnpacked a v)) fun b => ih b ha.2
    | keywordUnpack e =>
      refine C.bind (h.exec (ha.1.inner List.mem_cons_self) s) fun v => ?_
      exact C.bind (C.steady (steady_unmarked v)) fun u =>
        C.bind (C.steady (steady_addKeywords a (by simp) u)) fun b => ih b ha.2
    | quoted t =>
      refine C.bind (h.exec ha.1 s) fun v => C.bind (C.steady (steady_isMarked v)) fun marked => ?_
      cases marked with
      | true =>
        exact C.bind (C.steady (steady_unmarked v)) fun u =>
          C.bind (C.steady (steady_addKeywords a (by simp) u)) fun b => ih b ha.2
      | false => exact ih _ ha.2
    | _ => exact hp

theorem evalKeywords_coupled (a : Arguments) {keywords : List (String × Node)}
    (hk : ∀ t ∈ keywords.map Prod.snd, t.Obeys C.law l) :
    C.Rel (some s) l (evalKeywords m s a keywords) (evalKeywords m' s a keywords) := by
  induction keywords generalizing a with
  | nil => exact C.pure a
  | cons p rest ih =>
    rw [List.map_cons, List.forall_mem_cons] at hk
    refine C.bind (h.exec hk.1 s) fun v => ?_
    dsimp only
    split
    · exact C.bind (C.steady (steady_addKeywords a (by simp) v)) fun b => ih b hk.2
    · exact C.bind (C.pure _) fun b => ih b hk.2

/-- the default of a parameter, which stands in no loop of the call -/
theorem defaultArgument_coupled (name : String) {value : Option Node}
    (hv : ∀ t ∈ value.toList, t.Obeys C.law false) :
    C.Rel (some s) l (defaultArgument m s name value) (defaultArgument m' s name value) := by
  cases value with
  | none => exact C.steady (steady_fail nofun)
  | some e => exact C.enter (h.exec (hv e List.mem_cons_self) s)

theorem bindCollecting_coupled (a : Arguments) {params : List (Param Node)}
    (hp : ∀ t ∈ paramDefaults params, t.Obeys C.law false) :
    C.Rel (some s) l (bindCollecting m s a params) (bindCollecting m' s a params) := by
  induction params generalizing a with
  | nil => exact C.pure _
  | cons p ps ih =>
    rw [paramDefaults_cons, List.forall_mem_append] at hp
    cases p with
    | receiver => exact C.steady (steady_fail nofun)
    | keywords name =>
      exact C.bind (C.steady (steady_newDict _)) fun d =>
        C.bind (ih _ hp.2) fun _ => C.pure _
    | rest name =>
      exact C.bind (C.steady (steady_newList _)) fun d =>
        C.bind (ih _ hp.2) fun _ => C.pure _
    | plain name value =>
      unfold bindCollecting
      repeat' split
      · exact C.bind (ih _ hp.2) fun _ => C.pure _
      · exact C.bind (ih _ hp.2) fun _ => C.pure _
      · exact C.bind (defaultArgument_coupled h s name hp.1) fun v =>
          C.bind (ih _ hp.2) fun _ => C.pure _

theorem bindPlain_coupled (a : Arguments) {params : List (Param Node)}
    (hp : ∀ t ∈ paramDefaults params, t.Obeys C.law false) :
    C.Rel (some s) l (bindPlain m s a params) (bindPlain m' s a params) := by
  induction params generalizing a with
  | nil => exact C.pure _
  | cons p ps ih =>
    rw [paramDefaults_cons, List.forall_mem_append] at hp
    cases p with
    | plain name value =>
      unfold bindPlain
      repeat' split
      · exact C.bind (ih _ hp.2) fun _ => C.pure _
      · exact C.bind (ih _ hp.2) fun _ => C.pure _
      · exact C.bind (defaultArgument_coupled h s name hp.1) fun v =>
          C.bind (ih _ hp.2) fun _ => C.pure _
    | _ => exact C.steady (steady_fail nofun)

theorem bindArguments_coupled {params : List (Param Node)}
    (hp : ∀ t ∈ paramDefaults params, t.Obeys C.law false) (a : Arguments) :
    C.Rel (some s) l (bindArguments m s params a) (bindArguments m' s params a) := by
  unfold bindArguments
  dsimp only
  repeat' first | split | with_reducible refine C.bind ?_ fun _ => ?_
  all_goals first
    | exact bindCollecting_coupled h s a hp
    | exact bindPlain_coupled h s a hp
    | exact C.steady (by simp)

/-! ## calls -/

omit h in
/-- a call of something that cannot be called: by a name, it can be without a rule -/
theorem callOther_coupled {callee : Node}
    (hu : ∀ name, callee = .var name → ∀ t, C.Ends l (.fault (.unknownNode t)))
    (f : Value) (whole : Node) (args : List Value) :
    C.Rel (some s) l (callOther callee f whole args) (callOther callee f whole args) := by
  unfold callOther
  split
  · refine C.read fun w _ => ?_
    split
    · exact C.steady (steady_constructParts _ _ _)
    · exact C.read fun w _ => C.raise (hu _ rfl _)
  · exact C.steady (steady_bind (steady_plain f) fun _ => steady_fail nofun)

theorem evalCallee_coupled {callee : Node} (hc : callee.Obeys C.law l) :
    C.Rel (some s) l (evalCallee m s callee) (evalCallee m' s callee) := by
  unfold evalCallee
  split
  · rename_i object attr
    refine C.bind (h.exec (hc.inner List.mem_cons_self) s) fun o => ?_
    split
    · exact C.pure _
    · exact C.bind (C.steady (steady_getAttribute o attr)) fun v => C.pure _
  · exact C.bind (h.exec hc s) fun v => C.pure _

/-- a call of a value that can be called, or by something else than a name -/
theorem applyCall_coupled {callee : Node} {args : List Node} {keywords : List (String × Node)}
    (hn : (Node.call callee args keywords).Obeys C.law l) {f : Callee}
    (hu : ∀ v, f = .value v → v.isCallable = false → ∀ name, callee = .var name →
      ∀ t, C.Ends l (.fault (.unknownNode t))) :
    C.Rel (some s) l (applyCall m s callee args keywords f)
      (applyCall m' s callee args keywords f) := by
  have ha : ∀ t ∈ args, t.Obeys C.law l := fun t ht => hn.inner (by simp [Node.innerSteps, Node.inner, ht])
  have hk : ∀ t ∈ keywords.map Prod.snd, t.Obeys C.law l := fun t ht =>
    hn.inner (List.mem_cons_of_mem _ (List.mem_append_right _ ht))
  refine C.bind (evalArguments_coupled h s _ ha) fun a => ?_
  refine C.bind (evalKeywords_coupled h s a hk) fun b => ?_
  unfold applyCallee
  split
  · exact C.steady (steady_callTextMethod _ _ _)
  · exact C.steady (steady_callListMethod _ _ _)
  · rename_i cell
    refine C.read fun w hw => C.bind (bindArguments_coupled h s ?_ b) fun vs => ?_
    · exact fun t ht => hw.functions cell t (List.mem_append_right _ ht)
    · exact C.weaken (C.enter (h.call _ vs))
  · split
    · exact C.weaken (C.enter (h.call _ _))
    · rename_i hc
      exact callOther_coupled s (hu _ rfl (by simpa using hc)) _ _ _

theorem evalCall_coupled {callee : Node} {args : List Node} {keywords : List (String × Node)}
    (hn : (Node.call callee args keywords).Obeys C.law l)
    (hu : ∀ name, callee = .var name → ∀ t, C.Ends l (.fault (.unknownNode t))) :
    C.Rel (some s) l (evalCall m s callee args keywords) (evalCall m' s callee args keywords) := by
  exact C.bind (evalCallee_coupled h s (hn.inner List.mem_cons_self)) fun f =>
    applyCall_coupled h s hn fun _ _ _ => hu

omit s

theorem mapItems_coupled (args : List Value) :
    C.Rel none false (mapItems m args) (mapItems m' args) := by
  refine C.bind (C.steady (steady_twoArguments args)) fun ⟨f, v⟩ => ?_
  refine C.bind (foldItemsOr_coupled (fun acc x => ?_) (by simp) h.fuel v _) fun vs =>
    C.steady (steady_newList vs)
  exact C.bind (h.call f [x]) fun u => C.pure _

theorem filterItems_coupled (args : List Value) :
    C.Rel none false (filterItems m args) (filterItems m' args) := by
  refine C.bind (C.steady (steady_twoArguments args)) fun ⟨f, v⟩ => ?_
  refine C.bind (foldItemsOr_coupled (fun acc x => ?_) (by simp) h.fuel v _) fun vs =>
    C.steady (steady_newList vs)
  refine C.bind (h.call f [x]) fun u => C.bind (C.steady (steady_truth u)) fun t => ?_
  split <;> exact C.pure _

theorem reduceStep_coupled (f : Value) (acc : Option Value) (x : Value) :
    C.Rel none false (reduceStep m f acc x) (reduceStep m' f acc x) := by
  cases acc with
  | none => exact C.pure _
  | some a => exact C.bind (h.call f [a, x]) fun u => C.pure _

theorem reduceItems_coupled (args : List Value) :
    C.Rel none false (reduceItems m args) (reduceItems m' args) := by
  unfold reduceItems
  dsimp only
  repeat' first | split | with_reducible refine C.bind ?_ fun _ => ?_
  all_goals first
    | exact foldItemsOr_coupled (reduceStep_coupled h _) (by simp) h.fuel _ _
    | exact C.steady (by simp)

theorem callBuiltin_coupled (b : Builtin) (args : List Value)
    (hi : b = .load → C.Rel none false (includeModule args) (includeModule args)) :
    C.Rel none false (callBuiltin m b args) (callBuiltin m' b args) := by
  cases b with
  | map => exact mapItems_coupled h args
  | filter => exact filterItems_coupled h args
  | reduce => exact reduceItems_coupled h args
  | load => exact hi rfl
  | _ =>
    refine C.steady ?_
    unfold callBuiltin
    dsimp only
    repeat' first | split | with_reducible refine steady_bind ?_ fun _ => ?_
    all_goals simp

def callCallable (m : Machine) (c : Callable) (args : List Value) : Exec Value :=
  match c with
  | .constructor className fields qualified _ => construct m className fields qualified args
  | .method function self => callFunction m function (self :: args)
  | .textMethod t s => callTextMethod t s args
  | .listMethod t cell => callListMethod t cell args
  | .fileMethod t file => callFileMethod t file args

omit h in
theorem callValue_callable (m : Machine) (cell : Nat) (args : List Value) :
    callValue m (.callable cell) args = get >>= fun w => callCallable m (w.callable cell) args := rfl

theorem callCallable_coupled (c : Callable) (args : List Value)
    (hc : ∀ className fields qualified included, c = .constructor className fields qualified included →
      C.Rel none false (construct m className fields qualified args)
        (construct m' className fields qualified args)) :
    C.Rel none false (callCallable m c args) (callCallable m' c args) := by
  cases c with
  | constructor className fields qualified included => exact hc _ _ _ _ rfl
  | method function self => exact callFunction_coupled h _ _
  | textMethod t s => exact C.steady (steady_callTextMethod _ _ _)
  | listMethod t cell => exact C.steady (steady_callListMethod _ _ _)
  | fileMethod t file => exact C.steady (steady_callFileMethod _ _ _)

theorem callValue_coupled
    (hd : ∀ qualified e, FieldDefault C.law e →
      C.Rel none false (get >>= fun w => fieldDefault m qualified w.globals e)
        (get >>= fun w => fieldDefault m' qualified w.globals e)) (f : Value) (args : List Value)
    (hi : f = .builtin .load → C.Rel none false (includeModule args) (includeModule args)) :
    C.Rel none false (callValue m f args) (callValue m' f args) := by
  cases f with
  | function cell => exact callFunction_coupled h cell args
  | builtin b => exact callBuiltin_coupled h b args fun e => hi (by rw [e])
  | callable cell =>
    rw [callValue_callable, callValue_callable]
    refine C.read fun w hw => callCallable_coupled h _ args fun className fields q included he => ?_
    have hf := hw.callables cell
    rw [he] at hf
    exact construct_coupled hd className hf q args
  | _ => exact C.steady (steady_fail nofun)

/-! ## trees -/

omit h in
theorem runEmbedded_coupled (code : String) (s : Nat) :
    C.Rel (some s) l (runEmbedded code s) (runEmbedded code s) := by
  refine C.read fun w _ => ?_
  refine C.bind (C.steady (steady_runStatements _ _)) fun vars => ?_
  refine C.bind ?_ fun _ => C.pure _
  induction vars with
  | nil => exact C.pure _
  | cons p vars ih =>
    obtain ⟨name, v⟩ := p
    rw [bindVars]
    split
    · exact ih
    · exact C.bind (C.bindName s name v) fun _ => ih

omit h in
theorem declareFunction_coupled {f : Method Node} (hf : ∀ t ∈ f.steps, t.Obeys C.law false)
    (s : Nat) : C.Rel (some s) l (declareFunction f s) (declareFunction f s) := by
  refine C.bind (C.lawful (lawful_newFunction hf)) fun cell => ?_
  split
  · refine C.steady (steady_bind (steady_modify fun _ => ?_) fun _ => steady_pure _)
    exact .of_eq rfl rfl rfl rfl rfl
  · exact C.bind (C.bindName s f.name _) fun _ => C.pure _

/-- does a tree bind a name in the scope of global variables, wherever it is executed? -/
def Node.isDeclaration : Node → Bool
  | .global _ => true
  | .classDef _ => true
  | _ => false

/-- can a tree be without a rule, by itself or by what it calls? -/
def Node.isOdd : Node → Bool
  | .neg _ => true
  | .danglingOutside _ => true
  | .quoted _ => true
  | .listComp _ _ _ _ conditions => 1 < conditions.length
  | .call (.var _) _ _ => true
  | _ => false

omit h in
theorem unknownNode_coupled (s : Option Nat) (node : Node)
    (hu : ∀ t, C.Ends l (.fault (.unknownNode t))) : C.Rel s l (unknownNode node) (unknownNode node) :=
  C.read fun _ _ => C.raise (hu _)

/-- the rule of a tree that is not a declaration, if included files are coupled -/
theorem execPlain_coupled (s : Nat) {node : Node} (hn : node.Obeys C.law l)
    (hd : node.isDeclaration = false)
    (hi : ∀ path, node = .includeFile path →
      C.Rel (some s) l (includeInPlace m path s) (includeInPlace m' path s))
    (hu : node.isOdd = true → ∀ t, C.Ends l (.fault (.unknownNode t))) :
    C.Rel (some s) l (execPlain m s node) (execPlain m' s node) := by
  cases node with
  | num n => cases n <;> exact C.pure _
  | str text => exact C.pure _
  | var name => exact C.steady (steady_lookup s name)
  | list items =>
    exact C.bind (evalItems_coupled h s #[] fun t ht => hn.inner ht) fun vs =>
      C.steady (steady_newList vs)
  | listComp body var iterable step conditions =>
    exact evalListComp_coupled h s hn fun hl => hu (by simpa [Node.isOdd] using hl)
  | dict items =>
    refine C.bind (evalEntries_coupled h s _ fun p hp => ?_) fun d => C.steady (steady_newDict d)
    exact ⟨hn.inner (List.mem_flatMap.mpr ⟨p, hp, by simp⟩),
      hn.inner (List.mem_flatMap.mpr ⟨p, hp, by simp⟩)⟩
  | dictComp key value var iterable condition => exact evalDictComp_coupled h s hn
  | assign name value => exact evalAssign_coupled h s name (hn.inner List.mem_cons_self)
  | augAssign name op value => exact evalAugAssign_coupled h s name op (hn.inner List.mem_cons_self)
  | augAttr object attr op value =>
    obtain ⟨ho, hv⟩ := hn.both rfl
    exact evalAugAttr_coupled h s ho attr op hv
  | augIndex object index op value =>
    obtain ⟨ho, hi, hv⟩ := hn.three rfl
    exact evalAugIndex_coupled h s ho hi op hv
  | setIndex object index value =>
    obtain ⟨ho, hi, hv⟩ := hn.three rfl
    exact evalSetIndex_coupled h s ho hi hv
  | setAttr object attr value =>
    obtain ⟨ho, hv⟩ := hn.both rfl
    exact C.bind (h.exec ho s) fun o => C.bind (h.exec hv s) fun v =>
      C.steady (steady_bind (steady_putAttribute object o attr v) fun _ => steady_pure v)
  | binop op left right =>
    obtain ⟨hl, hr⟩ := hn.both rfl
    exact C.bind (operands_coupled h s hl hr) fun p => C.steady (steady_arith op p.1 p.2)
  | compare op left right =>
    obtain ⟨hl, hr⟩ := hn.both rfl
    exact C.bind (operands_coupled h s hl hr) fun p => C.steady (steady_compareValues op p.1 p.2)
  | inside left right =>
    obtain ⟨hl, hr⟩ := hn.both rfl
    exact C.bind (operands_coupled h s hl hr) fun p =>
      C.steady (steady_bind (steady_contains p.2 p.1) fun _ => steady_pure _)
  | outside left right =>
    obtain ⟨hl, hr⟩ := hn.both rfl
    exact C.bind (operands_coupled h s hl hr) fun p =>
      C.steady (steady_bind (steady_contains p.2 p.1) fun _ => steady_pure _)
  | and left right =>
    obtain ⟨hl, hr⟩ := hn.both rfl
    refine C.bind (h.exec hl s) fun v => C.bind (C.steady (steady_truth v)) fun t => ?_
    cases t with
    | true => exact h.exec hr s
    | false => exact C.pure _
  | or left right =>
    obtain ⟨hl, hr⟩ := hn.both rfl
    refine C.bind (h.exec hl s) fun v => C.bind (C.steady (steady_truth v)) fun t => ?_
    cases t with
    | true => exact C.pure _
    | false => exact h.exec hr s
  | not operand =>
    exact C.bind (h.exec (hn.inner List.mem_cons_self) s) fun v =>
      C.steady (steady_bind (steady_truth v) fun _ => steady_pure _)
  | ternary condition yes no =>
    obtain ⟨hc, hy, hn⟩ := hn.three rfl
    refine C.bind (h.exec hc s) fun v => C.bind (C.steady (steady_truth v)) fun t => ?_
    cases t with
    | true => exact h.exec hy s
    | false => exact h.exec hn s
  | call callee args keywords =>
    refine evalCall_coupled h s hn fun name hc => hu ?_
    rw [hc, Node.isOdd]
  | getAttr object attr =>
    exact C.bind (h.exec (hn.inner List.mem_cons_self) s) fun o => C.steady (steady_getAttribute o attr)
  | getItem object index =>
    obtain ⟨ho, hi⟩ := hn.both rfl
    exact evalGetItem_coupled h s ho hi
  | index object index =>
    obtain ⟨ho, hi⟩ := hn.both rfl
    exact evalIndex_coupled h s ho hi
  | slice object start stop step => exact evalSlice_coupled h s hn
  | block body => exact runBlock_coupled h s .null fun t ht => hn.inner ht
  | ifChain branches =>
    exact evalBranches_coupled h s fun b hb t ht => hn.inner (List.mem_flatMap.mpr ⟨b, hb, ht⟩)
  | forEach var iterable step body =>
    exact evalFor_coupled h s var (hn.inner List.mem_cons_self)
      (fun t ht => hn.inner (List.mem_cons_of_mem _ ht)) fun t ht => hn.turns ht
  | whileLoop condition body =>
    exact whileTurns_coupled h s (hn.inner List.mem_cons_self) (fun t ht => hn.turns ht) h.fuel
  | breakLoop => exact C.raise (C.breakLoop hn)
  | continueLoop => exact C.raise (C.continueLoop hn)
  | ret value =>
    exact C.bind (evalOption_coupled h s fun t ht => hn.inner ht) fun v => C.lawful (lawful_newMark hn v)
  | global name => cases hd
  | tryCatch name body handler =>
    exact evalTry_coupled h s name (fun t ht => hn.inner (List.mem_append_left _ ht))
      fun t ht => hn.inner (List.mem_append_right _ ht)
  | throw value =>
    exact C.bind (h.exec (hn.inner List.mem_cons_self) s) fun v => C.steady (steady_fail nofun)
  | classDef decl => cases hd
  | define method => exact declareFunction_coupled (fun t ht => hn.units ht) s
  | lambda params body =>
    refine C.read fun w _ => C.weaken (C.fresh _ fun i => ?_)
    refine C.bind (C.lawful (lawful_newFunction fun t ht => hn.units ht)) fun cell => ?_
    exact C.pure _
  | matchCase subject cases =>
    refine C.bind (h.exec (hn.inner List.mem_cons_self) s) fun v => ?_
    refine evalCases_coupled h s v fun c hc t ht => ?_
    exact hn.inner (List.mem_cons_of_mem _ (List.mem_flatMap.mpr ⟨c, hc, ht⟩))
  | embedded code => exact runEmbedded_coupled code s
  | includeFile path => exact hi path rfl
  | unpack operand => exact h.exec (hn.inner List.mem_cons_self) s
  | keywordUnpack operand =>
    refine C.bind (h.exec (hn.inner List.mem_cons_self) s) fun v => ?_
    split
    · exact C.steady (steady_bind steady_get fun _ => steady_newDict _)
    · exact C.steady (steady_fail nofun)
  | neg e => exact unknownNode_coupled _ _ (hu rfl)
  | danglingOutside e => exact unknownNode_coupled _ _ (hu rfl)
  | quoted v => exact unknownNode_coupled _ _ (hu rfl)

/-- a file that is included in a scope, if its trees obey the law -/
theorem includedBlock_coupled (s : Nat) {body : List Node}
    (hb : ∀ t ∈ blockSteps body, t.Obeys C.law false) :
    C.Rel (some s) l (runBlock m s .null body >>= fun _ => pure Value.null)
      (runBlock m' s .null body >>= fun _ => pure Value.null) :=
  C.bind (C.enter (runBlock_coupled h s .null hb)) fun _ => C.pure _

/-- a file that is included in a scope, if every tree obeys the law -/
theorem includeInPlace_coupled (hl : ∀ t, Node.Obeys t C.law false) (name : String) (s : Nat) :
    C.Rel (some s) l (includeInPlace m name s) (includeInPlace m' name s) := by
  rw [includeInPlace_eq, includeInPlace_eq]
  exact C.bind (C.steady (steady_includedProgram name)) fun body =>
    includedBlock_coupled h s fun t _ => hl t

omit h in
/-- a file that is included by a call, if every tree obeys the law -/
theorem includeModule_coupled (hl : ∀ t, Node.Obeys t C.law false) (args : List Value) :
    C.Rel none false (includeModule args) (includeModule args) := by
  rw [includeModule_eq]
  exact C.bind (C.steady (steady_moduleProgram args)) fun body =>
    C.lawful (lawful_moduleMembers fun t _ => hl t)

end

/-! ## couplings without scopes -/

def Coupling.Unscoped (C : Coupling) : Prop :=
  ∀ {s s' : Option Nat} {l : Bool} {α : Type} {x y : Exec α}, C.Rel s l x y → C.Rel s' l x y

namespace Coupling.Unscoped

variable {C : Coupling} (hC : C.Unscoped) {l : Bool}
include hC

theorem evalGlobal_coupled (s : Nat) (name : String) :
    C.Rel (some s) l (evalGlobal s name) (evalGlobal s name) := by
  refine C.read fun w _ => ?_
  split
  · exact C.bind (C.bindName s name _) fun _ => C.pure _
  · refine C.bind (hC (C.bindName w.globals name .null)) fun _ => ?_
    exact C.bind (C.bindName s name .null) fun _ => C.pure _

theorem declareClass_coupled (s : Option Nat) {c : ClassDecl Node}
    (hc : (Node.classDef c).Obeys C.law l) :
    C.Rel s l (declareClass c) (declareClass c) := by
  refine C.read fun w _ => ?_
  refine C.bind (C.lawful (lawful_registerClass _ _ _ c hc.methods)) fun t => ?_
  refine C.bind (C.steady (steady_modify fun _ => .of_eq rfl rfl rfl rfl rfl)) fun _ => ?_
  refine C.bind (C.lawful (lawful_newCallable (constructorOf_obeys hc false))) fun made => ?_
  exact C.bind (hC (C.bindName w.globals c.name made)) fun _ => C.pure _

theorem fieldDefault_coupled {m m' : Machine} (h : m.Coupled C m')
    (qualified : List (String × String)) (e : Node) (he : FieldDefault C.law e) :
    C.Rel none false (get >>= fun w => fieldDefault m qualified w.globals e)
      (get >>= fun w => fieldDefault m' qualified w.globals e) :=
  C.read fun w _ => hC (BraceScript.fieldDefault_coupled h w.globals qualified he)

end Coupling.Unscoped

/-! ## couplings of all programs -/

/-- a coupling that holds for every tree and every signal, and does not look at the code that is made -/
structure Coupling.Loose (C : Coupling) : Prop where
  obeys (l : Bool) (t : Node) : t.Obeys C.law l
  ends (l : Bool) (signal : Signal) : C.Ends l signal
  quiet {s : Option Nat} {l : Bool} {α : Type} {x : Exec α} : x.Quiet → C.Rel s l x x

namespace Coupling.Loose

variable {C : Coupling} (hC : C.Loose) {l : Bool}
include hC

theorem execPlain_coupled {m m' : Machine} (h : m.Coupled C m') (s : Nat) {node : Node}
    (hd : node.isDeclaration = false) :
    C.Rel (some s) l (execPlain m s node) (execPlain m' s node) :=
  BraceScript.execPlain_coupled h s (hC.obeys l node) hd
    (fun path _ => includeInPlace_coupled h (hC.obeys false) path s) fun _ _ => hC.ends _ _

theorem evalQuoted_coupled {s : Option Nat} {run run' : Node → Exec Value}
    (hr : ∀ node, C.Rel s l (run node) (run' node)) (v : Value) :
    C.Rel s l (evalQuoted run v) (evalQuoted run' v) := by
  refine C.bind (C.steady (steady_unwrapTree v)) fun u => C.bind (C.steady (steady_treePart u 0)) fun t => ?_
  split
  · refine C.bind (hC.quiet (quiet_readTree u _)) fun o => ?_
    cases o with
    | some node => exact hr node
    | none => exact C.steady (steady_treePart u 1)
  · exact hC.quiet (quiet_bind (steady_plain u).quiet fun _ => quiet_fail _)

end Coupling.Loose

def byRule (run : Node → Exec Value) : Node → Exec Value
  | .quoted v => evalQuoted run v
  | node => run node

theorem execNode_byRule (m : Machine) (s : Nat) (node : Node) :
    execNode m s node = byRule (execPlain m s) node := by
  cases node <;> rfl

theorem Coupling.Loose.byRule_coupled {C : Coupling} (hC : C.Loose) {s : Option Nat} {l : Bool}
    {run run' : Node → Exec Value} (hr : ∀ node, C.Rel s l (run node) (run' node)) (node : Node) :
    C.Rel s l (byRule run node) (byRule run' node) := by
  cases node with
  | quoted v => exact hC.evalQuoted_coupled hr v
  | _ => exact hr _

/-! ## machines -/

/-- a coupling that holds for declarations too, and for what runs in the scope of global variables -/
structure Coupling.Complete (C : Coupling) : Prop extends C.Loose where
  global (s : Nat) (l : Bool) (name : String) : C.Rel (some s) l (evalGlobal s name) (evalGlobal s name)
  declareClass (s : Nat) (l : Bool) (c : ClassDecl Node) :
    C.Rel (some s) l (BraceScript.declareClass c) (BraceScript.declareClass c)
  inGlobals {l : Bool} {α : Type} {f g : Nat → Exec α} : (∀ i, C.Rel (some i) l (f i) (g i)) →
    C.Rel none l (get >>= fun w => f w.globals) (get >>= fun w => g w.globals)

namespace Coupling.Complete

variable {C : Coupling} (hC : C.Complete) {m m' : Machine} (h : m.Coupled C m')
include hC h

theorem execPlain_coupled (s : Nat) (l : Bool) (node : Node) :
    C.Rel (some s) l (execPlain m s node) (execPlain m' s node) := by
  cases node with
  | global name => exact hC.global s l name
  | classDef c => exact hC.declareClass s l c
  | _ => exact hC.toLoose.execPlain_coupled h s rfl

theorem callValue_coupled (f : Value) (args : List Value) :
    C.Rel none false (callValue m f args) (callValue m' f args) :=
  BraceScript.callValue_coupled h
    (fun q _ he => hC.inGlobals fun i => BraceScript.fieldDefault_coupled h i q he) f args
    fun _ => includeModule_coupled (hC.obeys false) args

end Coupling.Complete

/-- a coupling of all programs in which the second machine may have more fuel -/
structure Coupling.Total (C : Coupling) : Prop extends C.Complete where
  grows : C.Grows

section
variable {C : Coupling} (hC : C.Total)
include hC

/-- **A machine is coupled with every machine of more fuel.** -/
theorem machine_coupled {n n' : Nat} (hn : n ≤ n') : (machine n).Coupled C (machine n') := by
  induction n generalizing n' with
  | zero =>
    exact ⟨fun _ _ => C.exhausted _ hC.grows fun _ => ⟨_, rfl⟩,
      fun _ _ => C.exhausted _ hC.grows fun _ => ⟨_, rfl⟩, Or.inr ⟨hC.grows, Nat.zero_le _⟩⟩
  | succ n ih =>
    obtain ⟨k, rfl⟩ : ∃ k, n' = k + 1 := ⟨n' - 1, by omega⟩
    have h : (machine n).Coupled C (machine k) := ih (by omega)
    refine ⟨fun {node l} _ s => ?_, fun f args => ?_, Or.inr ⟨hC.grows, Nat.le_of_succ_le_succ hn⟩⟩
    · rw [machine_exec, machine_exec, execNode_byRule, execNode_byRule]
      exact hC.toLoose.byRule_coupled (hC.execPlain_coupled h s l) node
    · rw [machine_call, machine_call]
      exact hC.callValue_coupled h f args

end

end BraceScript
