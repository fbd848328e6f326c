import BraceScript.Number.Reading
import BraceScript.Proofs.Token.Lexemes
import Mathlib.Algebra.Ring.Nat

/-!
# Integers written in decimal digits

A number written in digits reads as that number, unless it has more digits than can be read.

* `readInt_digits`     reading a run of digits
* `readInt_toString`   a number of few digits reads as itself
* `readInt_long`       a number of more digits is refused with their count
-/

namespace BraceScript

/-! ## digits are neither blanks nor signs -/

theorem digit_not_blank {c : Char} (h : Text.isDigit c = true) : Text.isBlank c = false := by
  rw [Bool.eq_false_iff]
  intro hb
  rw [Token.isDigit_blank hb] at h
  cases h

theorem digit_ne {c d : Char} (h : Text.isDigit c = true) (hd : Text.isDigit d = false) : c ≠ d := by
  rintro rfl
  rw [hd] at h
  cases h

def digitValue (c : Char) : Nat := (Text.digitValue? c).getD 0

theorem digitValue_digit {c : Char} (h : Text.isDigit c = true) : Text.digitValue? c = some (digitValue c) := by
  obtain ⟨d, hd⟩ := Option.isSome_iff_exists.mp h
  rw [digitValue, hd]
  rfl

theorem digitValue_ascii {c : Char} (h : c.isDigit = true) : Text.digitValue? c = some (c.toNat - 48) := by
  have hr : 48 ≤ c.toNat ∧ c.toNat ≤ 57 := Char.isDigit_iff_toNat.mp h
  unfold Text.digitValue?
  rw [if_pos (by omega), if_pos h]

/-! ## the parts of reading -/

theorem trimBlanks_of_solid {cs : List Char} (h : ∀ c ∈ cs, Text.isBlank c = false) :
    trimBlanks cs = cs := by
  have keep : ∀ ds : List Char, (∀ c ∈ ds, Text.isBlank c = false) →
      ds.dropWhile Text.isBlank = ds := by
    intro ds hds
    cases ds with
    | nil => rfl
    | cons c ds => rw [List.dropWhile_cons, hds c List.mem_cons_self]; rfl
  unfold trimBlanks
  rw [keep cs h, keep cs.reverse (fun c hc => h c (List.mem_reverse.mp hc)), List.reverse_reverse]

theorem splitSign_digits {c : Char} (h : Text.isDigit c = true) (cs : List Char) :
    splitSign (c :: cs) = (false, c :: cs) :=
  splitSign.eq_3 _ (fun _ e => digit_ne h (by decide) (List.cons.inj e).1)
    fun _ e => digit_ne h (by decide) (List.cons.inj e).1

theorem digitRun_digits {cs : List Char} (h : ∀ c ∈ cs, Text.isDigit c = true) :
    digitRun true cs = some (cs.map digitValue) := by
  induction cs with
  | nil => rfl
  | cons c cs ih =>
    have hc := h c List.mem_cons_self
    have hcs := ih (fun d hd => h d (List.mem_cons_of_mem _ hd))
    have hne : c ≠ '_' := digit_ne hc (by decide)
    rw [digitRun.eq_3 _ _ _ hne, digitValue_digit hc, hcs]
    rfl

theorem digitRun_start {cs : List Char} (hne : cs ≠ []) (h : ∀ c ∈ cs, Text.isDigit c = true) :
    digitRun false cs = some (cs.map digitValue) := by
  obtain ⟨c, cs, rfl⟩ := List.exists_cons_of_ne_nil hne
  have hc := h c List.mem_cons_self
  have hne : c ≠ '_' := digit_ne hc (by decide)
  rw [digitRun.eq_3 _ _ _ hne, digitValue_digit hc,
    digitRun_digits (fun d hd => h d (List.mem_cons_of_mem _ hd))]
  rfl

/-! ## reading a run of digits -/

theorem readInt_digits {cs : List Char} (hne : cs ≠ []) (h : ∀ c ∈ cs, Text.isDigit c = true) :
    readInt (String.ofList cs) =
      if maxDigits < cs.length then .error (.tooLong cs.length)
      else .ok (ofDigits (cs.map digitValue) : Nat) := by
  have hs : ∀ d ∈ cs, Text.isBlank d = false := fun d hd => digit_not_blank (h d hd)
  have hr := digitRun_start hne h
  obtain ⟨c, ds, rfl⟩ := List.exists_cons_of_ne_nil hne
  unfold readInt
  rw [String.toList_ofList, trimBlanks_of_solid hs, splitSign_digits (h c List.mem_cons_self)]
  simp only [hr, List.length_map, Bool.false_eq_true, if_false]

theorem isDigit_toDigits (n : Nat) : ∀ c ∈ Nat.toDigits 10 n, Text.isDigit c = true := by
  intro c hc
  rw [Text.isDigit, digitValue_ascii (Nat.isDigit_of_mem_toDigits (by decide) (by decide) hc)]
  rfl

theorem ofDigits_toDigits (n : Nat) : ofDigits ((Nat.toDigits 10 n).map digitValue) = n := by
  have hd : (Nat.toDigits 10 n).map digitValue = (Nat.toDigits 10 n).map fun c => c.toNat - 48 := by
    refine List.map_congr_left fun c hc => ?_
    rw [digitValue, digitValue_ascii (Nat.isDigit_of_mem_toDigits (by decide) (by decide) hc)]
    rfl
  rw [hd, ofDigits, List.foldl_map]
  exact (Nat.ofDigitChars_eq_foldl ..).symm.trans (Nat.ofDigitChars_ten_toDigits ..)

theorem readInt_toString {n : Nat} (h : n < 10 ^ maxDigits) : readInt (toString n) = .ok (n : Int) := by
  have hl : (Nat.toDigits 10 n).length ≤ maxDigits :=
    (Nat.length_toDigits_le_iff (by decide) (by decide)).mpr h
  rw [Nat.toString_eq_ofList_toDigits, readInt_digits Nat.toDigits_ne_nil (isDigit_toDigits n), if_neg (by omega),
    ofDigits_toDigits]

theorem readInt_long {n : Nat} (h : 10 ^ maxDigits ≤ n) :
    readInt (toString n) = .error (.tooLong (Nat.toDigits 10 n).length) := by
  have hl : ¬ (Nat.toDigits 10 n).length ≤ maxDigits := fun hle =>
    absurd ((Nat.length_toDigits_le_iff (by decide) (by decide)).mp hle) (Nat.not_lt.mpr h)
  rw [Nat.toString_eq_ofList_toDigits, readInt_digits Nat.toDigits_ne_nil (isDigit_toDigits n), if_pos (by omega)]

end BraceScript
