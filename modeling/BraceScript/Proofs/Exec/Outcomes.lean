import BraceScript.Proofs.Exec.Fuel

/-!
# Outcomes

What executing a tree ends in, whatever the fuel: the outcome on every machine that has enough.

* `Executes`              a tree ends in an outcome
* `Executes.unique`       there is one outcome at most
* `executes_of_agree`     trees that agree on all machines of more fuel have the same outcomes
-/

namespace BraceScript

open Exec

/-- how an execution ends: with a value or a signal, and in a state -/
abbrev Ending := EStateM.Result Signal World Value

/-- does an execution end for lack of fuel? -/
def Ending.Exhausted (r : Ending) : Prop := ∃ u, r = .error .exhausted u

theorem not_exhausted_ok (v : Value) (u : World) : ¬ Ending.Exhausted (.ok v u) := by
  rintro ⟨u', h⟩
  cases h

/-- executing the tree in the scope from the state ends in the outcome -/
def Executes (node : Node) (scope : Nat) (w : World) (r : Ending) : Prop :=
  ∃ n, (machine n).exec node scope w = r ∧ ¬ r.Exhausted

variable {node node' : Node} {scope n : Nat} {w : World} {r r' : Ending}

/-- a machine of more fuel comes to the same outcome -/
theorem exec_of_le {n' : Nat} (hn : n ≤ n') (hr : (machine n).exec node scope w = r) (hs : ¬ r.Exhausted) :
    (machine n').exec node scope w = r := by
  rcases exec_mono hn node scope w with he | ⟨u, hu⟩
  · rw [← he, hr]
  · exact absurd ⟨u, hr ▸ hu⟩ hs

theorem Executes.eventually (h : Executes node scope w r) : ∃ n, ∀ n', n ≤ n' → (machine n').exec node scope w = r := by
  obtain ⟨n, hr, hs⟩ := h
  exact ⟨n, fun n' hn => exec_of_le hn hr hs⟩

theorem Executes.unique (h : Executes node scope w r) (h' : Executes node scope w r') : r = r' := by
  obtain ⟨n, hn⟩ := h.eventually
  obtain ⟨n', hn'⟩ := h'.eventually
  rw [← hn (max n n') (Nat.le_max_left n n'), hn' (max n n') (Nat.le_max_right n n')]

/-- trees that agree on all machines of enough fuel end in the same outcomes -/
theorem executes_of_agree {bound : Nat}
    (h : ∀ n, bound ≤ n → (machine n).exec node scope w = (machine n).exec node' scope w) :
    Executes node scope w r → Executes node' scope w r := by
  rintro ⟨n, hr, hs⟩
  have hm := exec_of_le (Nat.le_max_left n bound) hr hs
  exact ⟨max n bound, (h _ (Nat.le_max_right n bound)).symm.trans hm, hs⟩

end BraceScript
