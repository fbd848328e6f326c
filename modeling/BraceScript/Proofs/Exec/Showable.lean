import BraceScript.Eval.Display

/-!
# Values that have a text

* `TextIf`                        a computation gives a result or fails for an integer of too many digits
* `World.textIf_shownWith`        which values have a text
* `World.textIf_signalText`       what ends an evaluation has a text, unless that shows a value without one
* `World.length_lt_of_listText`   the text of a list is longer than the list
-/

namespace BraceScript

variable {α β : Type}

/-- the computation gives a result if the answer is yes, and fails for an integer of too many digits if it is no -/
inductive TextIf : Except Fault α → Bool → Prop
  | text (a : α) : TextIf (.ok a) true
  | none : TextIf (.error .tooManyDigits) false

namespace TextIf

variable {r : Except Fault α} {b c : Bool}

theorem unique (h : TextIf r b) (h' : TextIf r c) : b = c := by
  cases h <;> cases h' <;> rfl

theorem fault {f : Fault} (h : TextIf (.error f : Except Fault α) b) : f = .tooManyDigits := by
  cases h
  rfl

theorem bind (h : TextIf r b) {f : α → Except Fault β} (hf : ∀ a, TextIf (f a) c) : TextIf (r >>= f) (b && c) := by
  cases h with
  | text a => exact hf a
  | none => exact .none

theorem map (h : TextIf r b) (f : α → β) : TextIf (r >>= fun a => .ok (f a)) b := by
  cases h with
  | text a => exact .text _
  | none => exact .none

theorem mapM {f : α → Except Fault β} {p : α → Bool} (h : ∀ a, TextIf (f a) (p a)) (xs : List α) :
    TextIf (xs.mapM f) (xs.all p) := by
  induction xs with
  | nil => exact .text _
  | cons x xs ih =>
    rw [List.mapM_cons]
    exact (h x).bind fun a => ih.map (a :: ·)

/-- a container that is being shown has a text -/
theorem guard (h : TextIf r c) (a : α) : TextIf (if b then .ok a else r) (b || c) := by
  cases b with
  | true => exact .text a
  | false => exact h

end TextIf

namespace World

variable (w : World)

/-- **Only integers of too many digits have no text.** -/
theorem textIf_shownWith (fuel : Nat) (inside : Shown) (v : Value) :
    TextIf (w.shownWith fuel inside v) (w.showableWith fuel inside v) := by
  induction fuel generalizing inside v with
  | zero => exact .text _
  | succ fuel ih =>
    unfold shownWith showableWith
    cases v with
    | int n =>
      dsimp only [intText]
      split
      · rename_i h
        rw [decide_eq_true h]
        exact .text _
      · rename_i h
        rw [decide_eq_false h]
        exact .none
    | list cell =>
      dsimp only
      rw [← Array.all_toList]
      exact .guard ((TextIf.mapM (ih _) _).map _) _
    | dict cell =>
      exact .guard ((TextIf.mapM (fun e : Value × Value => (ih _ e.1).bind fun _ => (ih _ e.2).map _) _).map _) _
    | tuple cell => exact .guard ((TextIf.mapM (ih _) _).map _) _
    | _ => exact .text _

theorem textIf_shown (v : Value) : TextIf (w.shown v) (w.showable v) := w.textIf_shownWith _ _ v

theorem textIf_plain (v : Value) : TextIf (w.plain v) (w.showable v) := by
  cases v with
  | str s => exact .text s
  | _ => exact w.textIf_shown _

/-- does the message of what ended an evaluation show a value that has no text? -/
def untold : Signal → Bool
  | .fault (.thrown v) => !w.showable v
  | .fault (.missingKey v) => !w.showable v
  | _ => false

theorem textIf_signalText (s : Signal) : TextIf (w.signalText s) (!w.untold s) := by
  unfold untold
  split
  · rw [Bool.not_not]
    exact w.textIf_plain _
  · rw [Bool.not_not]
    exact w.textIf_shown _
  · rename_i hthrown hmissing
    unfold signalText
    split
    · unfold message
      split
      · exact (hthrown _ rfl).elim
      · exact (hmissing _ rfl).elim
      · exact .text _
    · exact .text _

/-! ## lists -/

def listText (vs : List Value) : Except Fault String := do
  return "[" ++ commaSeparated (← vs.mapM w.shown) ++ "]"

theorem textIf_listText (vs : List Value) : TextIf (w.listText vs) (vs.all w.showable) :=
  (TextIf.mapM w.textIf_shown vs).map _

end World

theorem mapM_ok_length {f : α → Except Fault β} {xs : List α} {ys : List β} (h : xs.mapM f = .ok ys) :
    ys.length = xs.length := by
  induction xs generalizing ys with
  | nil =>
    cases h
    rfl
  | cons x xs ih =>
    rw [List.mapM_cons] at h
    rcases hx : f x with e | y <;> rw [hx] at h
    · cases h
    rcases hs : xs.mapM f with e | rest <;> rw [hs] at h
    · cases h
    cases h
    rw [List.length_cons, List.length_cons, ih hs]

/-- each item but the first comes after two more characters -/
theorem length_le_commaSeparated (ts : List String) : 2 * ts.length ≤ (commaSeparated ts).length + 2 := by
  induction ts with
  | nil => exact Nat.zero_le _
  | cons t ts ih =>
    cases ts with
    | nil => exact Nat.le_add_left _ _
    | cons u ts =>
      have hsep : ", ".length = 2 := rfl
      rw [commaSeparated, String.intercalate_cons_cons, String.length_append, String.length_append, hsep]
      rw [commaSeparated] at ih
      simp only [List.length_cons] at ih ⊢
      omega

/-- **The text of a list is longer than the list.** -/
theorem World.length_lt_of_listText {w : World} {vs : List Value} {text : String} (h : w.listText vs = .ok text) :
    vs.length < text.length := by
  unfold listText at h
  rcases ht : vs.mapM w.shown with e | ts <;> rw [ht] at h
  · cases h
  cases h
  have hl := mapM_ok_length ht
  have hc := length_le_commaSeparated ts
  have hopen : "[".length = 1 := rfl
  have hclose : "]".length = 1 := rfl
  rw [String.length_append, String.length_append, hopen, hclose]
  omega

end BraceScript
