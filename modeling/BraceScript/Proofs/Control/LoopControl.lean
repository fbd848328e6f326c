import BraceScript.Proofs.Control.EarlyReturn

/-!
# Ending a loop from inside

`break` and `continue` are signals that end the blocks around them. Branches, cases and handlers let a
signal pass; a turn of a loop takes it, and so does a block with a handler, which runs the handler as
for any other failure. So the word acts on the innermost loop around it only if no block with a handler
lies between the two.

* `LoopWord`          the two words, with the statement and the signal of each
* `Frame.answer`      what a frame does when its block ends with a word
* `closeAll_word`     frames that let a word pass add nothing
* `loop_word_taken`   the outcome of a block that comes to a word
-/

namespace BraceScript

/-- the words that steer a loop -/
inductive LoopWord
  | stop
  | next

namespace LoopWord

/-- the statement of a word -/
def node : LoopWord → Node
  | stop => .breakLoop
  | next => .continueLoop

def signal : LoopWord → Signal
  | stop => .breakLoop
  | next => .continueLoop

/-- a block that is at a word ends with its signal, whatever stands after it -/
theorem runBlock_node (word : LoopWord) (k scope : Nat) (r : Value) (rest : List Node) (w : World) :
    runBlock (machine (k + 1)) scope r (word.node :: rest) w = .error word.signal w := by
  cases word <;> rfl

end LoopWord

/-! ## frames at a word -/

namespace Frame

/-- does a frame let a word pass? It is no turn of a loop, and its block has no handler. -/
def passes (f : Frame) : Bool :=
  match f.around with
  | .branch => true
  | .handler _ => true
  | _ => false

/-- run a handler for the empty text, with the calls that were active before -/
def recover (m : Machine) (scope : Nat) (name : Option String) (recovery : List Node)
    (active : List Cell) : Exec Value := do
  Exec.bindMessage scope name (.str "")
  let v ← runBlock m scope .null recovery
  modify fun w => { w with active := active }
  return v

/-- the two signals have the same text, so a handler cannot tell them apart -/
theorem handle_word (word : LoopWord) (m : Machine) (scope : Nat) (name : Option String)
    (recovery : List Node) (active : List Cell) :
    handle m scope name recovery active word.signal = recover m scope name recovery active := by
  cases word <;> rfl

/-- what a frame does when its block ends with a word. A handler runs for the empty text; a turn of a loop
is over, and `stop` drops the turns that are left. -/
def answer (fuel scope : Nat) (word : LoopWord) (f : Frame) : Exec Value :=
  match f.around with
  | .attempt name recovery active =>
    recover (machine fuel) scope name recovery active >>=
      afterStatement (machine (fuel + 1)) scope f.rest
  | .forTurn var iterable body places active => do
    modify fun w => { w with active := active }
    let v ← match word with
      | .stop => pure .null
      | .next => forPlaces (machine fuel) scope var iterable body places
    afterStatement (machine (fuel + 1)) scope f.rest v
  | .whileTurn condition body turns active => do
    modify fun w => { w with active := active }
    let v ← match word with
      | .stop => pure .null
      | .next => whileTurns (machine fuel) scope condition body turns
    afterStatement (machine (fuel + 1)) scope f.rest v
  | _ => throw word.signal

theorem answer_passes {f : Frame} (h : f.passes = true) (fuel scope : Nat) (word : LoopWord) :
    f.answer fuel scope word = throw word.signal := by
  obtain ⟨around, rest⟩ := f
  cases around with
  | branch => rfl
  | handler active => rfl
  | _ => cases h

/-- a frame whose block ends with a word answers it -/
theorem close_word (fuel scope : Nat) {inner : Exec Value} {word : LoopWord} {w w₁ : World}
    (h : inner w = .error word.signal w₁) (f : Frame) :
    f.close fuel scope inner w = f.answer fuel scope word w₁ := by
  have hi : inner w = (throw word.signal : Exec Value) w₁ := h
  rw [f.close_congr fuel scope hi]
  obtain ⟨around, rest⟩ := f
  cases around with
  | branch => rfl
  | handler active => rfl
  | attempt name recovery active =>
    exact Exec.bind_congr (congrFun (handle_word word ..) w₁) _
  | forTurn var iterable body places active => cases word <;> rfl
  | whileTurn condition body turns active => cases word <;> rfl

end Frame

/-- frames that let a word pass add nothing to it -/
theorem closeAll_word (scope fuel : Nat) {inner : List Frame} (hi : ∀ f ∈ inner, f.passes = true)
    (outer : List Frame) {x : Exec Value} {word : LoopWord} {w w₁ : World}
    (h : x w = .error word.signal w₁) :
    closeAll scope fuel (inner ++ outer) x w =
      closeAll scope (fuel + inner.length) outer (throw word.signal) w₁ := by
  induction inner generalizing fuel x w with
  | nil => exact closeAll_congr scope fuel outer h
  | cons f inner ih =>
    have hf : f.close fuel scope x w = .error word.signal w₁ := by
      rw [f.close_word fuel scope h, Frame.answer_passes (hi f (List.mem_cons_self ..))]
      rfl
    rw [List.cons_append, closeAll, ih (fuel + 1) (fun g hg => hi g (List.mem_cons_of_mem _ hg)) hf,
      List.length_cons, Nat.add_right_comm, ← Nat.add_assoc]

/-- the frame after those that let a word pass answers it -/
theorem closeAll_answer (scope fuel : Nat) {inner : List Frame} (hi : ∀ f ∈ inner, f.passes = true)
    (g : Frame) (outer : List Frame) {x : Exec Value} {word : LoopWord} {w w₁ : World}
    (h : x w = .error word.signal w₁) :
    closeAll scope fuel (inner ++ g :: outer) x w =
      closeAll scope (fuel + inner.length + 1) outer
        (g.answer (fuel + inner.length) scope word) w₁ := by
  rw [closeAll_word scope fuel hi (g :: outer) h]
  exact closeAll_congr scope _ outer (g.close_word _ scope rfl)

/-- a handler that gives a value ends its frame as if the block had given the value -/
theorem answer_attempt {scope fuel : Nat} {name : Option String} {recovery : List Node}
    {active : List Cell} {v : Value} {w w₁ w₂ : World}
    (hb : Exec.bindMessage scope name (.str "") w = .ok () w₁)
    (hv : runBlock (machine fuel) scope .null recovery w₁ = .ok v w₂)
    (hm : returned? v w₂ = .ok none w₂) (word : LoopWord) :
    Frame.answer fuel scope word ⟨.attempt name recovery active, []⟩ w =
      .ok v { w₂ with active := active } := by
  have ha := returned_active hm active
  simp only [Frame.answer, Frame.recover, Exec.bind_run, Exec.modify_run, hb, hv, Exec.pure_run,
    afterStatement, ha]
  rfl

/-! ## blocks that come to a word -/

/-- **The outcome of a block that comes to `break` or `continue`.** The frames between the word and the
first one that does not let it pass are left. If every frame lets it pass, the block ends with the
signal. Otherwise that frame answers the word, and the frames outside are closed around its answer: a
turn of a loop ends, with the turns that are left if the word is `next` and without them if it is `stop`;
a block with a handler binds its name to the empty text and runs the handler. A handler that gives a
value hides the word from the loop: if nothing is left to do between the two, the frame around them goes
on, a loop with its next turn, whichever the word was. -/
theorem loop_word_taken {scope n k : Nat} {body rest : List Node} {w w₁ : World}
    {frames : List Frame} {word : LoopWord}
    (ha : Arrives scope n body w frames (word.node :: rest) (k + 1) w₁) (result : Value) :
    ((∀ f ∈ frames, f.passes = true) →
        runBlock (machine n) scope result body w = .error word.signal w₁) ∧
      (∀ inner g outer, frames = inner ++ g :: outer → (∀ f ∈ inner, f.passes = true) →
        runBlock (machine n) scope result body w =
          closeAll scope (k + 1 + inner.length + 1) outer
            (g.answer (k + 1 + inner.length) scope word) w₁) ∧
      ∀ inner name recovery active between g outer v w₂ w₃,
        frames = inner ++ ⟨.attempt name recovery active, []⟩ :: (between ++ g :: outer) →
        (∀ f ∈ inner, f.passes = true) → (∀ f ∈ between, f.isLast = true) →
        Exec.bindMessage scope name (.str "") w₁ = .ok () w₂ →
        runBlock (machine (k + 1 + inner.length)) scope .null recovery w₂ = .ok v w₃ →
        returned? v w₃ = .ok none w₃ →
        runBlock (machine n) scope result body w =
          closeAll scope (k + 1 + inner.length + 1 + between.length + 1) outer
            (g.goOn (k + 1 + inner.length + 1 + between.length) scope v)
            (leaveAll (between ++ [g]) { w₃ with active := active }) := by
  have hw : ∀ r, runBlock (machine (k + 1)) scope r (word.node :: rest) w₁ =
      (throw word.signal : Exec Value) w₁ := fun r => word.runBlock_node k scope r rest w₁
  rw [ha.run hw result]
  refine ⟨fun hp => ?_, fun inner g outer hf hp => ?_, ?_⟩
  · have h := closeAll_word scope (k + 1) hp [] (x := throw word.signal) (w := w₁) rfl
    rwa [List.append_nil] at h
  · rw [hf]
    exact closeAll_answer scope (k + 1) hp g outer rfl
  · intro inner name recovery active between g outer v w₂ w₃ hf hp hl hb hv hm
    obtain ⟨he, hu⟩ := closeAll_lasts scope (k + 1 + inner.length + 1) hl (g :: outer)
      (returned_active hm active)
    rw [hf, leaveAll_snoc]
    calc closeAll scope (k + 1) _ (throw word.signal) w₁
      _ = closeAll scope (k + 1 + inner.length + 1) (between ++ g :: outer)
            (Frame.answer (k + 1 + inner.length) scope word ⟨.attempt name recovery active, []⟩) w₁ :=
          closeAll_answer scope (k + 1) hp _ _ rfl
      _ = closeAll scope (k + 1 + inner.length + 1) (between ++ g :: outer) (pure v)
            { w₃ with active := active } := closeAll_congr scope _ _ (answer_attempt hb hv hm word)
      _ = closeAll scope _ outer (g.close (k + 1 + inner.length + 1 + between.length) scope (pure v))
            (leaveAll between { w₃ with active := active }) := he
      _ = _ := closeAll_congr scope _ outer (g.close_value hu)

/-- a state with global variables and the list 1, 2 -/
def World.pair (vars : List (String × Value)) : World :=
  { (default : World) with scopes := #[⟨vars, none⟩], lists := #[#[.int 1, .int 2]] }

/-- the loop `for (i, xs) { try { break } catch (e) { } }` -/
def guardedLoop : Node := .forEach "i" (.var "xs") none [.tryCatch (some "e") [.breakLoop] []]

/-- the loop is not ended in its first turn: it goes on with the second one, and the name of the handler
is bound -/
theorem loop_word_taken_guarded :
    runBlock (machine 4) 0 .null [guardedLoop] (World.pair [("xs", .list 0)]) =
      .ok .null (World.pair [("e", .str ""), ("i", .int 2), ("xs", .list 0)]) := by
  have he : Exec.element (.list 0) (.int 0) (World.pair [("xs", .list 0)]) =
      .ok (.int 1) (World.pair [("xs", .list 0)]) := rfl
  have hf : EntersFor (machine 3) 0 "i" (.list 0) [.tryCatch (some "e") [.breakLoop] []] [0, 1]
      (World.pair [("xs", .list 0)]) [1] (World.pair [("i", .int 1), ("xs", .list 0)]) := .now he rfl
  have ha : Arrives 0 4 [guardedLoop] (World.pair [("xs", .list 0)])
      ([] ++ [⟨.attempt (some "e") [] [], []⟩] ++
        [⟨.forTurn "i" (.list 0) [.tryCatch (some "e") [.breakLoop] []] [1] [], []⟩])
      [LoopWord.stop.node] (1 + 1) (World.pair [("i", .int 1), ("xs", .list 0)]) :=
    .inside (.forEach rfl rfl rfl hf) (.inside .attempt .here)
  have h := (loop_word_taken ha .null).2.2 [] (some "e") [] [] [] _ [] .null
    (World.pair [("e", .str ""), ("i", .int 1), ("xs", .list 0)]) _ rfl (by simp) (by simp) rfl rfl rfl
  rw [h]
  rfl

end BraceScript
