import BraceScript.Proofs.Token.Lexemes

/-!
# Cutting comments

What the two passes over the source text do to a piece of it, whatever follows the piece.

* `Marked`              a mark of two characters begins in a piece
* `cutComments_plain`   a piece without marks stays
* `cutComments_line`, `cutComments_block`   comments are cut
* `cutComments_merged`  a comment right after a block comment takes the end of the block comment along
-/

namespace BraceScript.Token

variable {x : List Char}

open Text

/-! ## marks -/

/-- the mark `ab` begins in the text `x`, which the text `r` follows -/
def Marked (a b : Char) : List Char → List Char → Prop
  | [], _ => False
  | c :: x, r => (c = a ∧ (x ++ r).head? = some b) ∨ Marked a b x r

section
variable {a b : Char} {r : List Char}

theorem marked_append (x y : List Char) :
    Marked a b (x ++ y) r ↔ Marked a b x (y ++ r) ∨ Marked a b y r := by
  induction x with
  | nil => simp [Marked]
  | cons c x ih => simp [Marked, ih, or_assoc]

theorem not_marked_of_notMem (h : a ∉ x) : ¬ Marked a b x r := by
  induction x with
  | nil => exact id
  | cons c x ih =>
    rintro (⟨rfl, -⟩ | hm)
    · exact h (List.mem_cons_self ..)
    · exact ih (fun hx => h (List.mem_cons_of_mem c hx)) hm

/-- a text that does not hold the mark, before a text that does not complete it -/
theorem not_marked_of_free (h : ¬ [a, b] <:+: x) (hr : r.head? ≠ some b) : ¬ Marked a b x r := by
  induction x with
  | nil => exact id
  | cons c x ih =>
    rw [List.infix_cons_iff, not_or] at h
    rintro (⟨rfl, hm⟩ | hm)
    · cases x with
      | nil => exact hr hm
      | cons d x =>
        rw [List.cons_append, List.head?_cons, Option.some.injEq] at hm
        exact h.1 (by simp [hm])
    · exact ih h.2 hm

end

/-- a blank completes no mark -/
theorem head?_ne_of_stops {d : Char} (hd : isBlank d = false) {r : List Char} (hr : Stops r) :
    r.head? ≠ some d := by
  intro h
  exact ne_of_blank (hr d h) hd rfl

/-! ## the pass over lines -/

theorem cutLines_plain {r : List Char} (h : ¬ Marked '/' '/' x r) :
    cutLines false (x ++ r) = x ++ cutLines false r := by
  induction x with
  | nil => rfl
  | cons c x ih =>
    rw [Marked, not_or] at h
    rw [List.cons_append, cutLines, ih h.2]
    split
    · rename_i hc
      rw [hc, List.cons_append]
    · rw [if_neg (by simpa using h.1), List.cons_append]

theorem cutLines_inside (r : List Char) :
    cutLines true r = cutLines false (r.dropWhile (· != '\n')) := by
  induction r with
  | nil => rfl
  | cons c r ih =>
    by_cases hc : c = '\n'
    · subst hc
      rfl
    · rw [cutLines, if_neg hc, Bool.true_or, if_pos rfl, ih, List.dropWhile_cons_of_pos (by simp [hc])]

theorem cutLines_mark (r : List Char) :
    cutLines false ('/' :: '/' :: r) = cutLines false (r.dropWhile (· != '\n')) := by
  rw [← cutLines_inside]
  rfl

theorem stops_cutLines {r : List Char} (h : Stops r) : Stops (cutLines false r) := by
  cases r with
  | nil => exact stops_nil
  | cons c r =>
    have hc := stops_cons.mp h
    rw [cutLines]
    split
    · exact stops_cons.mpr rfl
    · rw [if_neg (by simp [ne_of_blank hc (show isBlank '/' = false by decide)])]
      exact stops_cons.mpr hc

/-! ## the pass over blocks -/

theorem cutBlocks_plain {r : List Char} (h : ¬ Marked '/' '*' x r) :
    cutBlocks .code (x ++ r) = x ++ cutBlocks .code r := by
  induction x with
  | nil => rfl
  | cons c x ih =>
    rw [Marked, not_or] at h
    rw [List.cons_append, cutBlocks, if_neg, ih h.2, List.cons_append]
    simp only [Bool.and_eq_true, decide_eq_true_eq]
    exact fun hm => h.1 hm.1

theorem closes_append (x r : List Char) : closes (x ++ '*' :: '/' :: r) = true := by
  induction x with
  | nil => rfl
  | cons c x ih => rw [List.cons_append, closes, ih, Bool.or_true]

theorem cutBlocks_comment {r : List Char} (h : ¬ Marked '*' '/' x ('*' :: '/' :: r)) :
    cutBlocks .comment (x ++ '*' :: '/' :: r) = cutBlocks .code r := by
  induction x with
  | nil => rfl
  | cons c x ih =>
    rw [Marked, not_or] at h
    rw [List.cons_append, cutBlocks, if_neg (by simpa using h.1), ih h.2]

theorem cutBlocks_block {r : List Char} (h : ¬ ['*', '/'] <:+: x) :
    cutBlocks .code ('/' :: '*' :: x ++ '*' :: '/' :: r) = cutBlocks .code r := by
  rw [← cutBlocks_comment (not_marked_of_free (r := '*' :: '/' :: r) h (by simp))]
  have hc : closes (x ++ '*' :: '/' :: r) = true := closes_append x r
  simp [cutBlocks, hc]

/-! ## both passes -/

theorem cutComments_plain {r : List Char} (hl : ¬ Marked '/' '/' x r)
    (hb : ¬ Marked '/' '*' x (cutLines false r)) : cutComments (x ++ r) = x ++ cutComments r := by
  rw [cutComments, cutLines_plain hl, cutBlocks_plain hb, cutComments]

/-- a text without a slash stays, whatever follows -/
theorem cutComments_noSlash (h : '/' ∉ x) (r : List Char) : cutComments (x ++ r) = x ++ cutComments r :=
  cutComments_plain (not_marked_of_notMem h) (not_marked_of_notMem h)

theorem cutComments_line (h : '\n' ∉ x) (r : List Char) :
    cutComments ('/' :: '/' :: x ++ '\n' :: r) = '\n' :: cutComments r := by
  have hx : (x ++ '\n' :: r).dropWhile (· != '\n') = '\n' :: r := by
    rw [List.dropWhile_append_of_pos, List.dropWhile_cons_of_neg (by simp)]
    intro c hc
    rw [bne_iff_ne]
    rintro rfl
    exact h hc
  rw [cutComments, List.cons_append, List.cons_append, cutLines_mark, hx]
  exact cutComments_noSlash (x := ['\n']) (by decide) r

section
variable {x : List Char} (hs : ¬ ['/', '/'] <:+: x)
include hs

/-- the pass over lines keeps a block comment up to its last character -/
theorem cutLines_block (r : List Char) :
    cutLines false ('/' :: '*' :: x ++ '*' :: r) = '/' :: '*' :: x ++ '*' :: cutLines false r := by
  have hm : ¬ Marked '/' '/' ('/' :: '*' :: x ++ ['*']) r := by
    rw [marked_append]
    have hx := not_marked_of_free (r := '*' :: r) hs (by simp)
    simp [Marked, hx]
  have he : '/' :: '*' :: x ++ '*' :: r = ('/' :: '*' :: x ++ ['*']) ++ r := by simp
  rw [he, cutLines_plain hm]
  simp

theorem cutComments_block (hc : ¬ ['*', '/'] <:+: x) {r : List Char} (hr : r.head? ≠ some '/') :
    cutComments ('/' :: '*' :: x ++ '*' :: '/' :: r) = cutComments r := by
  have hm : ¬ Marked '/' '/' ['/'] r := by simp [Marked, hr]
  have hl : cutLines false ('/' :: r) = '/' :: cutLines false r := cutLines_plain hm
  rw [cutComments, cutLines_block hs, hl, cutBlocks_block hc, cutComments]

/-- a slash after a block comment opens a line comment that takes the slash of the closing mark along -/
theorem cutComments_merged (r : List Char) :
    cutComments ('/' :: '*' :: x ++ '*' :: '/' :: '/' :: r) =
      cutComments ('/' :: '*' :: x ++ '*' :: r.dropWhile (· != '\n')) := by
  rw [cutComments, cutLines_block hs, cutLines_mark, cutComments, cutLines_block hs]

end

/-- a text before a blank stays if it holds no mark -/
theorem cutComments_stops {r : List Char} (hl : ¬ ['/', '/'] <:+: x) (hb : ¬ ['/', '*'] <:+: x)
    (hr : Stops r) : cutComments (x ++ r) = x ++ cutComments r :=
  cutComments_plain (not_marked_of_free hl (head?_ne_of_stops (by decide) hr))
    (not_marked_of_free hb (head?_ne_of_stops (by decide) (stops_cutLines hr)))

/-- a text in double quote marks stays if it holds no mark -/
theorem cutComments_quoted (hl : ¬ ['/', '/'] <:+: x) (hb : ¬ ['/', '*'] <:+: x)
    (r : List Char) : cutComments ('"' :: x ++ ['"'] ++ r) = '"' :: x ++ ['"'] ++ cutComments r := by
  refine cutComments_plain ?_ ?_
  · rw [marked_append]
    have hx := not_marked_of_free (r := '"' :: r) hl (by simp)
    simp [Marked, hx]
  · rw [marked_append]
    have hx := not_marked_of_free (r := '"' :: cutLines false r) hb (by simp)
    simp [Marked, hx]

/-- a canonical token stays -/
theorem cutComments_spelled {t : Token} (h : t.Canonical) {r : List Char} (hr : Stops r) :
    cutComments (t.spelled ++ r) = t.spelled ++ cutComments r := by
  by_cases hk : t.kind = .string
  · obtain ⟨hs, -, hl, hb⟩ := spelled_string h hk
    rw [hs]
    exact cutComments_quoted hl hb r
  · obtain ⟨hs, hp⟩ := spelled_plain h hk
    rw [hs]
    exact cutComments_stops hp.noLine hp.noBlock hr

end BraceScript.Token
