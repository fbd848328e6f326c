import BraceScript.Proofs.Parse.Progress

/-!
# Brackets in programs that are read

What the readers take opens nothing that it does not close. So a program that is read settles every account of
its brackets.

* `settles_of_parse`  the account of a program that is read
* `weigh_of_parse`    a program that is read has the excess of its loose tokens
-/

namespace BraceScript

open Parse

/-- **A program that is read settles every account** that is kept for its tokens. -/
theorem settles_of_parse {σ : Type} (A : Ledger σ) {ts : List Token} {body : List Node} (h : parse ts = .ok body)
    (ha : ∀ t ∈ ts, A.admits t) {s : σ} (hs : A.settles s []) : A.settles s ts := by
  have he := ended_program A ts ha
  rw [program_of_parse h] at he
  cases he with
  | ok _ _ hn => exact hn s hs

/-- **A program that is read has the excess of its loose tokens.** -/
theorem weigh_of_parse (b : Bracket) {ts : List Token} {body : List Node} (h : parse ts = .ok body) :
    b.weigh ts = b.weigh (loose none ts) := by
  have hd : 0 + b.debt ts = 0 := settles_of_parse b.ledger h (fun _ _ => trivial) (s := 0) rfl
  rw [Bracket.debt] at hd
  omega

end BraceScript
