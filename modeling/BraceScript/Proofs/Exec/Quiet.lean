import BraceScript.Proofs.Exec.KnownFaults
import BraceScript.Proofs.Exec.Run

/-!
# Evaluations that leave scopes and code alone

Most evaluations only read scopes: they make cells, change lists, dictionaries and files, and write output.
Most of them make no functions and no constructors either, and end with ordinary faults only.

* `Exec.Runs`     an evaluation changes a state in a manner, and ends with the signals of that manner
* `Exec.Quiet`    an evaluation changes no scope and does not move the global variables
* `Exec.Steady`   it also makes no function and no constructor, and ends with plain signals only
* `Exec.runs_bind`, `Exec.runs_tryCatch`, ...     how such evaluations are put together
* `Exec.steady_element`, `Exec.steady_arith`, ...   the evaluations that are steady
-/

namespace BraceScript

/-- cells are made, and none changes -/
def Extends {α : Type} (cells cells' : Array α) : Prop := ∃ made, cells' = cells ++ made

theorem Extends.of_eq {α : Type} {cells cells' : Array α} (h : cells' = cells) : Extends cells cells' :=
  ⟨#[], by rw [h, Array.append_empty]⟩

theorem Extends.push {α : Type} (cells : Array α) (a : α) : Extends cells (cells.push a) :=
  ⟨#[a], Array.push_eq_append⟩

theorem Extends.trans {α : Type} {as bs cs : Array α} (h : Extends as bs) (h' : Extends bs cs) : Extends as cs := by
  obtain ⟨made, hm⟩ := h
  obtain ⟨more, hn⟩ := h'
  exact ⟨made ++ more, by rw [hn, hm, Array.append_assoc]⟩

theorem Extends.getD {α : Type} {cells cells' : Array α} (h : Extends cells cells') {i : Nat} (hi : i < cells.size)
    (a b : α) : cells'.getD i a = cells.getD i b := by
  obtain ⟨made, rfl⟩ := h
  simp [Array.getElem?_append_left hi, Array.getElem?_eq_getElem hi]

/-- functions and callables are made, and none changes -/
structure World.Makes (w w' : World) : Prop where
  functions : Extends w.functions w'.functions
  callables : Extends w.callables w'.callables

theorem World.Makes.of_eq {w w' : World} (hf : w'.functions = w.functions) (hc : w'.callables = w.callables) :
    w.Makes w' := ⟨.of_eq hf, .of_eq hc⟩

theorem World.Makes.trans {w₁ w₂ w₃ : World} (h : w₁.Makes w₂) (h' : w₂.Makes w₃) : w₁.Makes w₃ :=
  ⟨h.functions.trans h'.functions, h.callables.trans h'.callables⟩

/-- the scopes of two states and the place of the global variables are the same; functions and
callables may be made -/
structure SameScopes (w w' : World) : Prop where
  scopes : w'.scopes = w.scopes
  globals : w'.globals = w.globals
  makes : w.Makes w'

@[simp] theorem SameScopes.refl (w : World) : SameScopes w w := ⟨rfl, rfl, .of_eq rfl rfl⟩

theorem SameScopes.trans {w₁ w₂ w₃ : World} (h : SameScopes w₁ w₂) (h' : SameScopes w₂ w₃) :
    SameScopes w₁ w₃ :=
  ⟨h'.scopes.trans h.scopes, h'.globals.trans h.globals, h.makes.trans h'.makes⟩

def Callable.isConstructor : Callable → Bool
  | .constructor .. => true
  | _ => false

/-- no tuple is marked as returned -/
def World.Unmarked (w : World) : Prop := ∀ cell, (w.tuple cell).head? ≠ some (.str "return")

theorem World.Unmarked.of_eq {w w' : World} (h : w.Unmarked) (ht : w'.tuples = w.tuples) :
    w'.Unmarked := by
  intro cell
  rw [World.tuple, ht]
  exact h cell

theorem World.Unmarked.push {w : World} (h : w.Unmarked) {items : List Value}
    (hi : items.head? ≠ some (.str "return")) :
    ({ w with tuples := w.tuples.push items } : World).Unmarked := by
  intro cell
  by_cases hc : cell = w.tuples.size
  · simpa [World.tuple, hc] using hi
  · have ht : ({ w with tuples := w.tuples.push items } : World).tuple cell = w.tuple cell := by
      simp [World.tuple, Array.getD_eq_getD_getElem?, Array.getElem?_push, hc]
    rw [ht]
    exact h cell

/-- the scopes of two states and their code are the same: no function is made, and no constructor. No tuple
is made that is marked as returned. -/
structure SameCode (w w' : World) : Prop extends SameScopes w w' where
  functions : w'.functions = w.functions
  callables (cell : Nat) :
    w'.callable cell = w.callable cell ∨ (w'.callable cell).isConstructor = false
  tuples : w.Unmarked → w'.Unmarked

namespace SameCode

theorem of_eq {w w' : World} (hs : w'.scopes = w.scopes) (hg : w'.globals = w.globals)
    (hf : w'.functions = w.functions) (hc : w'.callables = w.callables)
    (ht : w'.tuples = w.tuples) : SameCode w w' where
  scopes := hs
  globals := hg
  makes := .of_eq hf hc
  functions := hf
  callables cell := Or.inl (by rw [World.callable, hc, World.callable])
  tuples hu := hu.of_eq ht

@[simp] theorem refl (w : World) : SameCode w w := .of_eq rfl rfl rfl rfl rfl

theorem trans {w₁ w₂ w₃ : World} (h : SameCode w₁ w₂) (h' : SameCode w₂ w₃) : SameCode w₁ w₃ where
  toSameScopes := h.toSameScopes.trans h'.toSameScopes
  functions := h'.functions.trans h.functions
  callables cell := by
    rcases h'.callables cell with he | hn
    · rw [he]
      exact h.callables cell
    · exact Or.inr hn
  tuples hu := h'.tuples (h.tuples hu)

theorem handles {w w' : World} (h : SameCode w w') (files : Array Handle) :
    SameCode w { w' with handles := files } :=
  ⟨⟨h.scopes, h.globals, h.makes.functions, h.makes.callables⟩, h.functions, h.callables, h.tuples⟩

end SameCode

/-! ## files -/

namespace World

theorem sameCode_flush (w : World) (cell : Nat) : SameCode w (w.flush cell) := by
  simp only [flush]
  split <;> exact .of_eq rfl rfl rfl rfl rfl

theorem sameCode_close (w : World) (cell : Nat) : SameCode w (w.close cell) :=
  (w.sameCode_flush cell).handles _

theorem sameCode_settle (w : World) (key : String) : SameCode w (w.settle key) := by
  have hc : ∀ (cells : List Nat) (w : World), SameCode w (cells.foldl World.close w) := by
    intro cells
    induction cells with
    | nil => exact .refl
    | cons c cells ih => exact fun w => (w.sameCode_close c).trans (ih _)
  simp only [settle]
  split
  · exact .refl w
  · exact hc _ w

theorem sameCode_load (w : World) (cell : Nat) : SameCode w (w.load cell) :=
  ((w.sameCode_settle _).trans (sameCode_flush _ cell)).handles _

end World

/-- the signal neither steers a loop nor is the fault for a tree without a rule -/
structure Signal.Plain (s : Signal) : Prop where
  notBreak : s ≠ .breakLoop
  notContinue : s ≠ .continueLoop
  known (shown : String) : s ≠ .fault (.unknownNode shown)

namespace Exec

variable {α β : Type} {x : Exec α} {f : α → Exec β} {w : World}

/-- the state that an evaluation ends in -/
def after (x : Exec α) (w : World) : World :=
  match x w with
  | .ok _ w' => w'
  | .error _ w' => w'

/-- a way to change states that can go on, and the signals that may end it -/
structure Manner where
  Rel : World → World → Prop
  refl (w : World) : Rel w w
  trans {w₁ w₂ w₃ : World} : Rel w₁ w₂ → Rel w₂ w₃ → Rel w₁ w₃
  Ends : Signal → Prop

/-- the evaluation changes a state in a manner, and ends with its signals -/
def RunsFrom (M : Manner) (w : World) (x : Exec α) : Prop :=
  M.Rel w (x.after w) ∧ ∀ s u, x w = .error s u → M.Ends s

/-- the evaluation changes states in a manner, and ends with its signals -/
def Runs (M : Manner) (x : Exec α) : Prop := ∀ w, RunsFrom M w x

/-! ## putting evaluations together -/

section
variable {M : Manner}

theorem runs_pure (a : α) : Runs M (pure a : Exec α) := by
  refine fun w => ⟨M.refl w, fun s u he => ?_⟩
  cases he

theorem runs_get : Runs M (get : Exec World) := by
  refine fun w => ⟨M.refl w, fun s u he => ?_⟩
  cases he

/-- an evaluation that looks at the state it starts from -/
theorem runs_read {f : World → Exec α} (h : ∀ w, RunsFrom M w (f w)) : Runs M (get >>= f) := h

theorem runs_throw {s : Signal} (h : M.Ends s) : Runs M (throw s : Exec α) := by
  refine fun w => ⟨M.refl w, fun s' u he => ?_⟩
  cases he
  exact h

theorem runs_modifyGet {f : World → α × World} (h : ∀ w, M.Rel w (f w).2) :
    Runs M (modifyGet f : Exec α) := by
  refine fun w => ⟨h w, fun s u he => ?_⟩
  cases he

theorem runsFrom_bind (hx : RunsFrom M w x)
    (hf : ∀ a u, x w = .ok a u → RunsFrom M u (f a)) : RunsFrom M w (x >>= f) := by
  simp only [RunsFrom, after, bind_run] at hx ⊢
  cases h : x w with
  | ok a w' =>
    rw [h] at hx
    exact ⟨M.trans hx.1 (hf a w' h).1, (hf a w' h).2⟩
  | error s w' =>
    rw [h] at hx
    refine ⟨hx.1, fun s' u he => ?_⟩
    cases he
    exact hx.2 s _ rfl

theorem runs_bind (hx : Runs M x) (hf : ∀ a, Runs M (f a)) :
    Runs M (x >>= f) := fun w => runsFrom_bind (hx w) fun a u _ => hf a u

theorem runs_map (hx : Runs M x) (f : α → β) : Runs M (f <$> x) := by
  have h : f <$> x = x >>= fun a => pure (f a) := by
    funext w
    rw [map_run, bind_run]
    rfl
  rw [h]
  exact runs_bind hx fun a => runs_pure _

theorem runs_tryCatch {f : Signal → Exec α} (hx : Runs M x)
    (hf : ∀ s, M.Ends s → Runs M (f s)) : Runs M (tryCatch x f) := by
  intro w
  have hw := hx w
  simp only [RunsFrom, after, tryCatch_run] at hw ⊢
  cases h : x w with
  | ok a w' =>
    rw [h] at hw
    refine ⟨hw.1, fun s u he => ?_⟩
    cases he
  | error s w' =>
    rw [h] at hw
    have hs := hf s (hw.2 s w' rfl) w'
    exact ⟨M.trans hw.1 hs.1, hs.2⟩

theorem runs_mapM (hf : ∀ a, Runs M (f a)) (xs : List α) : Runs M (xs.mapM f) := by
  induction xs with
  | nil => exact runs_pure _
  | cons x xs ih =>
    rw [List.mapM_cons]
    exact runs_bind (hf x) fun a => runs_bind ih fun as => runs_pure _

end

/-- scopes are left alone, whatever the end -/
def quietManner : Manner := ⟨SameScopes, .refl, .trans, fun _ => True⟩

/-- scopes and code are left alone, and the end is plain -/
def steadyManner : Manner := ⟨SameCode, .refl, .trans, Signal.Plain⟩

/-- the evaluation changes no scope and does not move the global variables -/
def Quiet (x : Exec α) : Prop := Runs quietManner x

/-- the evaluation changes no scope, makes no function and no constructor, and ends with plain signals -/
def Steady (x : Exec α) : Prop := Runs steadyManner x

theorem Quiet.after (h : Quiet x) (w : World) : SameScopes w (x.after w) := (h w).1

@[simp] theorem Steady.quiet (h : Steady x) : Quiet x :=
  fun w => ⟨(h w).1.toSameScopes, fun _ _ _ => trivial⟩

theorem quiet_bind (hx : Quiet x) (hf : ∀ a, Quiet (f a)) : Quiet (x >>= f) := runs_bind hx hf

theorem quiet_map (hx : Quiet x) (f : α → β) : Quiet (f <$> x) := runs_map hx f

theorem quiet_mapM (hf : ∀ a, Quiet (f a)) (xs : List α) : Quiet (xs.mapM f) :=
  runs_mapM hf xs

@[simp] theorem quiet_fail (f : Fault) : Quiet (fail f : Exec α) := runs_throw trivial

@[simp] theorem steady_pure (a : α) : Steady (pure a : Exec α) := runs_pure a

@[simp] theorem steady_get : Steady (get : Exec World) := runs_get

theorem steady_throw {s : Signal} (h : s.Plain) : Steady (throw s : Exec α) := runs_throw h

@[simp] theorem steady_exhausted : Steady (throw .exhausted : Exec α) :=
  runs_throw ⟨nofun, nofun, nofun⟩

@[simp] theorem steady_giveUp : Steady (giveUp : Exec α) := steady_exhausted

@[simp] theorem steady_character (n : Nat) : Steady (character n) := by
  unfold character
  split
  · exact steady_pure _
  · exact steady_giveUp

@[simp] theorem steady_fail {f : Fault} (h : ∀ shown, f ≠ .unknownNode shown) :
    Steady (fail f : Exec α) :=
  runs_throw ⟨nofun, nofun, fun t e => h t (Signal.fault.inj e)⟩

theorem steady_modifyGet {f : World → α × World} (h : ∀ w, SameCode w (f w).2) :
    Steady (modifyGet f : Exec α) := runs_modifyGet h

theorem steady_modify {f : World → World} (h : ∀ w, SameCode w (f w)) :
    Steady (modify f : Exec Unit) := runs_modifyGet h

theorem steady_bind (hx : Steady x) (hf : ∀ a, Steady (f a)) : Steady (x >>= f) := runs_bind hx hf

theorem steady_mapM (hf : ∀ a, Steady (f a)) (xs : List α) : Steady (xs.mapM f) :=
  runs_mapM hf xs

/-! ## cells, faults and output -/

variable (cell : Nat) (v : Value) (args : List Value)

@[simp] theorem steady_ofExcept {r : Except Fault α} (h : Known r) : Steady (ofExcept r) := by
  cases r with
  | ok a => exact steady_pure a
  | error f => exact steady_fail (Fault.ne_unknownNode (h f rfl))

@[simp] theorem steady_query {f : World → Except Fault α} (h : ∀ w, Known (f w)) :
    Steady (query f) :=
  steady_bind steady_get fun w => steady_ofExcept (h w)

@[simp] theorem steady_newList (items : Array Value) : Steady (newList items) :=
  steady_modifyGet fun _ => .of_eq rfl rfl rfl rfl rfl

@[simp] theorem steady_newDict (d : Dict) : Steady (newDict d) :=
  steady_modifyGet fun _ => .of_eq rfl rfl rfl rfl rfl

theorem runsFrom_newTuple {items : List Value} (h : w.Unmarked → items.head? ≠ some (.str "return")) :
    RunsFrom steadyManner w (newTuple items) := by
  unfold newTuple
  split
  · exact steady_pure _ w
  · refine ⟨⟨⟨rfl, rfl, .of_eq rfl rfl⟩, rfl, fun _ => Or.inl rfl, fun hw => hw.push (h hw)⟩, fun s u he => ?_⟩
    cases he

theorem steady_newTuple {items : List Value} (h : items.head? ≠ some (.str "return")) :
    Steady (newTuple items) := fun _ => runsFrom_newTuple fun _ => h

@[simp] theorem quiet_newCallable (c : Callable) : Quiet (newCallable c) :=
  runs_modifyGet fun w => ⟨rfl, rfl, .of_eq rfl, .push w.callables c⟩

theorem steady_newCallable {c : Callable} (h : c.isConstructor = false) :
    Steady (newCallable c) :=
  steady_modifyGet fun w => ⟨⟨rfl, rfl, .of_eq rfl, .push w.callables c⟩, rfl, fun cell => by
    by_cases hc : cell = w.callables.size
    · exact Or.inr (by simpa [World.callable, hc] using h)
    · exact Or.inl (by simp [World.callable, Array.getD_eq_getD_getElem?, Array.getElem?_push, hc]), id⟩

@[simp] theorem steady_newHandle (h : Handle) : Steady (newHandle h) :=
  steady_modifyGet fun _ => .of_eq rfl rfl rfl rfl rfl

@[simp] theorem steady_newDouble (x : Double) : Steady (newDouble x) := by
  unfold newDouble
  split
  · exact steady_modifyGet fun _ => .of_eq rfl rfl rfl rfl rfl
  · exact steady_pure _

@[simp] theorem steady_setList (items : Array Value) : Steady (setList cell items) :=
  steady_modifyGet fun _ => .of_eq rfl rfl rfl rfl rfl

@[simp] theorem steady_modifyList (f : Array Value → Array Value) :
    Steady (modifyList cell f) := steady_modifyGet fun _ => .of_eq rfl rfl rfl rfl rfl

@[simp] theorem steady_modifyDict (f : Dict → Dict) : Steady (modifyDict cell f) :=
  steady_modifyGet fun _ => .of_eq rfl rfl rfl rfl rfl

@[simp] theorem steady_modifyHandle (f : Handle → Handle) :
    Steady (modifyHandle cell f) := steady_modifyGet fun _ => .of_eq rfl rfl rfl rfl rfl

@[simp] theorem steady_write (s : String) : Steady (write s) :=
  steady_modifyGet fun _ => .of_eq rfl rfl rfl rfl rfl

@[simp] theorem steady_active (active : List Cell) :
    Steady (modify fun w => { w with active := active }) :=
  steady_modifyGet fun _ => .of_eq rfl rfl rfl rfl rfl

@[simp] theorem steady_lookup (scope : Nat) (name : String) : Steady (lookup scope name) := by
  refine steady_bind steady_get fun w => ?_
  split <;> simp

@[simp] theorem steady_shown : Steady (shown v) :=
  steady_query fun w => w.known_shown v

@[simp] theorem steady_plain : Steady (plain v) :=
  steady_query fun w => w.known_plain v

@[simp] theorem steady_truth : Steady (truth v) := steady_bind steady_get fun _ => steady_pure _

/-! ## collections -/

@[simp] theorem steady_checkKey : Steady (checkKey v) := by
  refine steady_bind steady_get fun w => ?_
  split <;> simp

@[simp] theorem steady_findKey (key : Value) : Steady (findKey cell key) :=
  steady_bind (steady_checkKey key) fun _ => steady_bind steady_get fun _ => steady_pure _

@[simp] theorem steady_putKey (key value : Value) : Steady (putKey cell key value) :=
  steady_bind (steady_checkKey key) fun _ => steady_modifyDict _ _

@[simp] theorem steady_length : Steady (length v) := by
  refine steady_bind steady_get fun w => ?_
  split <;> simp

@[simp] theorem steady_indexOf (sequence index : Value) : Steady (indexOf sequence index) := by
  unfold indexOf
  repeat' split
  all_goals simp

@[simp] theorem steady_element (collection index : Value) : Steady (element collection index) := by
  unfold element
  dsimp only
  repeat' first | split | with_reducible refine steady_bind ?_ fun _ => ?_
  all_goals simp

@[simp] theorem steady_putElement (collection index value : Value) :
    Steady (putElement collection index value) := by
  unfold putElement
  repeat' first | split | with_reducible refine steady_bind ?_ fun _ => ?_
  all_goals simp

@[simp] theorem steady_sliceBound : Steady (sliceBound v) := by
  unfold sliceBound
  repeat' first | split | with_reducible refine steady_bind ?_ fun _ => ?_
  all_goals simp

@[simp] theorem steady_slice (sequence start stop step : Value) :
    Steady (slice sequence start stop step) := by
  unfold slice
  dsimp only
  repeat' first | split | with_reducible refine steady_bind ?_ fun _ => ?_
  all_goals simp

/-! ## files -/

@[simp] theorem steady_prepareFile (path : String) (m : FileMode) : Steady (prepareFile path m) := by
  have hs : ∀ key, Steady (modify (·.settle key)) := fun key =>
    steady_modify fun w => w.sameCode_settle key
  have hw : ∀ key, Steady (modify fun w => { w with disk := w.disk.write key "" }) := fun key =>
    steady_modify fun _ => .of_eq rfl rfl rfl rfl rfl
  unfold prepareFile
  repeat' first | split | with_reducible refine steady_bind ?_ fun _ => ?_
  all_goals simp [hs, hw]

@[simp] theorem steady_openFile (path mode : Value) : Steady (openFile path mode) := by
  unfold openFile
  dsimp only
  repeat' first | split | with_reducible refine steady_bind ?_ fun _ => ?_
  all_goals simp

@[simp] theorem steady_checkOpen : Steady (checkOpen cell) := by
  unfold checkOpen
  repeat' first | split | with_reducible refine steady_bind ?_ fun _ => ?_
  all_goals simp

@[simp] theorem steady_checkReadable : Steady (checkReadable cell) := by
  unfold checkReadable
  repeat' first | split | with_reducible refine steady_bind ?_ fun _ => ?_
  all_goals simp

@[simp] theorem steady_takeUnread (rest : List Char) :
    Steady (takeUnread cell rest) := by
  exact steady_modifyHandle _ _

@[simp] theorem steady_load : Steady (modify (·.load cell)) :=
  steady_modify fun w => w.sameCode_load cell

@[simp] theorem steady_readRest : Steady (readRest cell) := by
  unfold readRest
  dsimp only
  repeat' first | split | with_reducible refine steady_bind ?_ fun _ => ?_
  all_goals simp

@[simp] theorem steady_readLine : Steady (readLine cell) := by
  unfold readLine
  repeat' first | split | with_reducible refine steady_bind ?_ fun _ => ?_
  all_goals simp

@[simp] theorem steady_readLines : Steady (readLines cell) := by
  unfold readLines
  dsimp only
  repeat' first | split | with_reducible refine steady_bind ?_ fun _ => ?_
  all_goals simp

@[simp] theorem steady_writeText (data : Value) : Steady (writeText cell data) := by
  unfold writeText
  repeat' first | split | with_reducible refine steady_bind ?_ fun _ => ?_
  all_goals simp

@[simp] theorem steady_closeFile : Steady (closeFile cell) := by
  have hc : Steady (modify (·.close cell)) := steady_modify fun w => w.sameCode_close cell
  unfold closeFile
  repeat' first | split | with_reducible refine steady_bind ?_ fun _ => ?_
  all_goals simp [hc]

@[simp] theorem steady_readWhole (path : String) : Steady (readWhole path) := by
  have hs : ∀ key, Steady (modify (·.settle key)) := fun key =>
    steady_modify fun w => w.sameCode_settle key
  exact steady_bind (steady_query fun w => known_toRead _ _) fun key => steady_bind (hs key) fun _ =>
    steady_bind steady_get fun _ => steady_pure _

/-! ## items -/

@[simp] theorem steady_itemsOr {f : Fault} (h : ∀ shown, f ≠ .unknownNode shown) (v : Value) :
    Steady (itemsOr f v) := by
  unfold itemsOr
  repeat' first | split | with_reducible refine steady_bind ?_ fun _ => ?_
  all_goals simp [h]

@[simp] theorem steady_items : Steady (items v) := by
  exact steady_itemsOr (fun _ => by simp) v

@[simp] theorem steady_contains (collection v : Value) : Steady (contains collection v) := by
  unfold contains
  repeat' first | split | with_reducible refine steady_bind ?_ fun _ => ?_
  all_goals simp

/-! ## templates -/

@[simp] theorem steady_nextArgument (args : TemplateArgs) : Steady (nextArgument args) := by
  unfold nextArgument
  repeat' first | split | with_reducible refine steady_bind ?_ fun _ => ?_
  all_goals simp

@[simp] theorem steady_nextInteger (args : TemplateArgs) : Steady (nextInteger args) := by
  unfold nextInteger
  repeat' first | split | with_reducible refine steady_bind ?_ fun _ => ?_
  all_goals simp

@[simp] theorem steady_templateEntry (args : TemplateArgs) (key : String) :
    Steady (templateEntry args key) := by
  unfold templateEntry
  repeat' first | split | with_reducible refine steady_bind ?_ fun _ => ?_
  all_goals simp

@[simp] theorem steady_decimalInteger (letter : Char) (v : Value) :
    Steady (decimalInteger letter v) := by
  unfold decimalInteger
  repeat' first | split | with_reducible refine steady_bind ?_ fun _ => ?_
  all_goals simp

@[simp] theorem steady_formatDouble : Steady (formatDouble v) := by
  unfold formatDouble
  dsimp only
  repeat' first | split | with_reducible refine steady_bind ?_ fun _ => ?_
  all_goals simp

@[simp] theorem steady_formatCharacter : Steady (formatCharacter v) := by
  unfold formatCharacter
  repeat' first | split | with_reducible refine steady_bind ?_ fun _ => ?_
  all_goals simp

@[simp] theorem steady_convert (d : Directive) (letter : Char) (position : Nat) (v : Value) :
    Steady (convert d letter position v) := by
  unfold convert
  dsimp only
  repeat' first | split | with_reducible refine steady_bind ?_ fun _ => ?_
  all_goals simp

@[simp] theorem steady_templateWidth (d : Directive) (args : TemplateArgs) (cs : List Char) :
    Steady (templateWidth d args cs) := by
  unfold templateWidth
  dsimp only
  repeat' first | split | with_reducible refine steady_bind ?_ fun _ => ?_
  all_goals simp

@[simp] theorem steady_templatePrecision (d : Directive) (args : TemplateArgs) (cs : List Char) :
    Steady (templatePrecision d args cs) := by
  unfold templatePrecision
  dsimp only
  repeat' first | split | with_reducible refine steady_bind ?_ fun _ => ?_
  all_goals simp

@[simp] theorem steady_keyedArguments (args : TemplateArgs) (cs : List Char) :
    Steady (keyedArguments args cs) := by
  unfold keyedArguments
  repeat' first | split | with_reducible refine steady_bind ?_ fun _ => ?_
  all_goals simp

@[simp] theorem steady_formatDirective (size : Nat) (args : TemplateArgs) (cs : List Char) :
    Steady (formatDirective size args cs) := by
  unfold formatDirective
  dsimp only
  repeat' first | split | with_reducible refine steady_bind ?_ fun _ => ?_
  all_goals simp

@[simp] theorem steady_formatFrom (size fuel : Nat) (args : TemplateArgs) (cs : List Char) :
    Steady (formatFrom size fuel args cs) := by
  induction fuel generalizing args cs with
  | zero => exact steady_exhausted
  | succ fuel ih =>
    unfold formatFrom
    dsimp only
    repeat' first | split | with_reducible refine steady_bind ?_ fun _ => ?_
    all_goals simp [ih]

@[simp] theorem steady_formatTemplate (template : String) (v : Value) :
    Steady (formatTemplate template v) := by
  unfold formatTemplate
  repeat' first | split | with_reducible refine steady_bind ?_ fun _ => ?_
  all_goals simp

/-! ## arithmetic -/

@[simp] theorem steady_ofNumeric (x : Numeric) : Steady (ofNumeric x) := by
  unfold ofNumeric
  repeat' first | split | with_reducible refine steady_bind ?_ fun _ => ?_
  all_goals simp

@[simp] theorem steady_repeatCount (size : Nat) (n : Int) : Steady (repeatCount size n) := by
  unfold repeatCount
  repeat' first | split | with_reducible refine steady_bind ?_ fun _ => ?_
  all_goals simp

theorem head_repeatItems {items : List Value} {v : Value} {n : Nat}
    (h : (repeatItems items n).head? = some v) : items.head? = some v := by
  cases items with
  | nil => exact h
  | cons item items =>
    cases n with
    | zero => cases h
    | succ n => exact h

theorem steady_repeatedTuple (n : Int) : Steady (repeated? (.tuple cell) n) := by
  refine runs_read fun w => runsFrom_bind (steady_repeatCount _ _ w) fun k u hk => ?_
  have hu : u = w := by
    unfold repeatCount at hk
    split at hk
    · cases hk
    · split at hk <;> cases hk
      rfl
  rw [hu]
  refine runsFrom_bind (runsFrom_newTuple fun hw hm => ?_) fun v u _ => steady_pure _ u
  exact hw cell (head_repeatItems hm)

@[simp] theorem steady_repeated (sequence : Value) (n : Int) : Steady (repeated? sequence n) := by
  cases sequence with
  | tuple cell => exact steady_repeatedTuple cell n
  | _ =>
    unfold repeated?
    dsimp only
    repeat' first | split | with_reducible refine steady_bind ?_ fun _ => ?_
    all_goals simp

@[simp] theorem steady_unsupported (op : ArithOp) (a b : Value) :
    Steady (unsupported op a b : Exec α) := steady_fail nofun

@[simp] theorem steady_joined (a b : Value) : Steady (joined a b) := by
  unfold joined
  split
  · exact steady_pure _
  · exact steady_bind steady_get fun w => steady_newList _
  · rename_i i j
    refine runs_read fun w => runsFrom_newTuple fun hw hm => ?_
    rw [List.head?_append, Option.or_eq_some_iff] at hm
    rcases hm with hm | ⟨-, hm⟩
    · exact hw i hm
    · exact hw j hm
  · split <;> simp

@[simp] theorem steady_multiplied (a b : Value) : Steady (multiplied a b) := by
  unfold multiplied
  repeat' first | split | with_reducible refine steady_bind ?_ fun _ => ?_
  all_goals simp

@[simp] theorem steady_arith (op : ArithOp) (a b : Value) : Steady (arith op a b) := by
  unfold arith
  repeat' first | split | with_reducible refine steady_bind ?_ fun _ => ?_
  all_goals simp

@[simp] theorem steady_power (a b : Value) : Steady (power a b) := by
  unfold power
  repeat' first | split | with_reducible refine steady_bind ?_ fun _ => ?_
  all_goals simp

/-! ## builtin functions -/

@[simp] theorem steady_printValues : Steady (printValues args) :=
  steady_bind (steady_mapM steady_shown args) fun _ => steady_bind (steady_write _) fun _ => steady_pure _

@[simp] theorem steady_argument (i : Nat) : Steady (argument args i) := by
  unfold argument
  repeat' first | split | with_reducible refine steady_bind ?_ fun _ => ?_
  all_goals simp

@[simp] theorem steady_printEnd : Steady (printEnd v) := by
  unfold printEnd
  repeat' first | split | with_reducible refine steady_bind ?_ fun _ => ?_
  all_goals simp

@[simp] theorem steady_inputLine : Steady inputLine := by
  have hi : ∀ rest : List String, Steady (modify fun w => { w with input := rest }) := fun _ =>
    steady_modify fun _ => .of_eq rfl rfl rfl rfl rfl
  unfold inputLine
  repeat' first | split | with_reducible refine steady_bind ?_ fun _ => ?_
  all_goals simp [hi]

@[simp] theorem steady_printFormatted : Steady (printFormatted args) := by
  unfold printFormatted
  dsimp only
  repeat' first | split | with_reducible refine steady_bind ?_ fun _ => ?_
  all_goals simp [steady_mapM]

@[simp] theorem steady_inputValue (line : String) : Steady (inputValue line) := by
  unfold inputValue
  repeat' first | split | with_reducible refine steady_bind ?_ fun _ => ?_
  all_goals simp

@[simp] theorem steady_readInput : Steady (readInput args) := by
  unfold readInput
  repeat' first | split | with_reducible refine steady_bind ?_ fun _ => ?_
  all_goals simp

@[simp] theorem steady_integerArgument : Steady (integerArgument v) := by
  unfold integerArgument
  repeat' first | split | with_reducible refine steady_bind ?_ fun _ => ?_
  all_goals simp

@[simp] theorem steady_makeRange (start stop step : Int) : Steady (makeRange start stop step) := by
  unfold makeRange
  dsimp only
  repeat' first | split | with_reducible refine steady_bind ?_ fun _ => ?_
  all_goals simp

@[simp] theorem steady_toRange : Steady (toRange args) := by
  unfold toRange
  repeat' first | split | with_reducible refine steady_bind ?_ fun _ => ?_
  all_goals simp

@[simp] theorem steady_toInt : Steady (toInt v) := by
  unfold toInt
  repeat' first | split | with_reducible refine steady_bind ?_ fun _ => ?_
  all_goals simp

@[simp] theorem steady_toFloat : Steady (toFloat v) := by
  unfold toFloat
  repeat' first | split | with_reducible refine steady_bind ?_ fun _ => ?_
  all_goals simp

@[simp] theorem steady_toCharacter : Steady (toCharacter v) := by
  unfold toCharacter
  repeat' first | split | with_reducible refine steady_bind ?_ fun _ => ?_
  all_goals simp

@[simp] theorem steady_toOrdinal : Steady (toOrdinal v) := by
  unfold toOrdinal
  repeat' first | split | with_reducible refine steady_bind ?_ fun _ => ?_
  all_goals simp

@[simp] theorem steady_putPairs (d : Dict) (n : Nat) (vs : List Value) : Steady (putPairs d n vs) := by
  induction vs generalizing d n with
  | nil => exact steady_pure d
  | cons v vs ih =>
    unfold putPairs
    repeat' first | split | with_reducible refine steady_bind ?_ fun _ => ?_
    all_goals simp [ih]

@[simp] theorem steady_toDict : Steady (toDict v) := by
  unfold toDict
  repeat' first | split | with_reducible refine steady_bind ?_ fun _ => ?_
  all_goals simp

@[simp] theorem steady_toFile : Steady (toFile args) := by
  unfold toFile
  repeat' first | split | with_reducible refine steady_bind ?_ fun _ => ?_
  all_goals simp

/-! ## methods -/

@[simp] theorem steady_checkArity (least most : Nat) (name : String) (args : List Value) :
    Steady (checkArity least most name args) := by
  unfold checkArity
  dsimp only
  repeat' first | split | with_reducible refine steady_bind ?_ fun _ => ?_
  all_goals simp

@[simp] theorem steady_callTextMethod (m : TextMethod) (s : String) (args : List Value) :
    Steady (callTextMethod m s args) := by
  unfold callTextMethod
  repeat' first | split | with_reducible refine steady_bind ?_ fun _ => ?_
  all_goals simp [steady_mapM]

@[simp] theorem steady_findItem : Steady (findItem cell v) := by
  unfold findItem
  repeat' first | split | with_reducible refine steady_bind ?_ fun _ => ?_
  all_goals simp

@[simp] theorem steady_sortList (reverse : Value) : Steady (sortList cell reverse) := by
  unfold sortList
  dsimp only
  repeat' first | split | with_reducible refine steady_bind ?_ fun _ => ?_
  all_goals try simp
  all_goals
    rename_i w _ f hf _
    exact steady_fail (Fault.ne_unknownNode (known_sortItems w.known_less _ _ f hf))

@[simp] theorem steady_callListMethod (m : ListMethod) (cell : Nat) (args : List Value) :
    Steady (callListMethod m cell args) := by
  unfold callListMethod
  dsimp only
  repeat' first | split | with_reducible refine steady_bind ?_ fun _ => ?_
  all_goals simp

@[simp] theorem steady_callFileMethod (m : FileMethod) (file : Value) (args : List Value) :
    Steady (callFileMethod m file args) := by
  unfold callFileMethod
  repeat' first | split | with_reducible refine steady_bind ?_ fun _ => ?_
  all_goals simp

/-! ## attributes -/

@[simp] theorem steady_memberNames (type : Value) : Steady (memberNames type) := by
  unfold memberNames
  repeat' first | split | with_reducible refine steady_bind ?_ fun _ => ?_
  all_goals simp

@[simp] theorem steady_noMember (type : Value) (attr : String) (names : List String) :
    Steady (noMember cell type attr names) := by
  unfold noMember
  dsimp only
  repeat' first | split | with_reducible refine steady_bind ?_ fun _ => ?_
  all_goals simp [steady_mapM]

@[simp] theorem steady_otherAttribute (type : Value) (attr : String) :
    Steady (otherAttribute cell type attr) := by
  unfold otherAttribute
  repeat' first | split | with_reducible refine steady_bind ?_ fun _ => ?_
  all_goals first | exact steady_newCallable rfl | simp

@[simp] theorem steady_instanceAttribute (type : Value) (attr : String) :
    Steady (instanceAttribute cell type attr) := by
  unfold instanceAttribute
  dsimp only
  repeat' first | split | with_reducible refine steady_bind ?_ fun _ => ?_
  all_goals first | exact steady_newCallable rfl | simp

@[simp] theorem steady_getAttribute (object : Value) (attr : String) :
    Steady (getAttribute object attr) := by
  unfold getAttribute
  dsimp only
  repeat' first | split | with_reducible refine steady_bind ?_ fun _ => ?_
  all_goals first | exact steady_newCallable rfl | simp

@[simp] theorem steady_putAttribute (target : Node) (object : Value) (attr : String) (value : Value) :
    Steady (putAttribute target object attr value) := by
  unfold putAttribute
  repeat' first | split | with_reducible refine steady_bind ?_ fun _ => ?_
  all_goals simp

end Exec

end BraceScript
