import BraceScript.Proofs.Token.Segments

/-!
# Texts in quote marks

A text in quote marks is read as one string token if nothing in it is taken for a comment. Comments are
cut before quote marks are looked at, so a comment in the text is lost, and the rest is read without
it. Both kinds of marks are stripped from the token, so a text in single marks also loses the double
marks at its ends.

* `HoldsComment`            a comment stands in a text
* `length_cutComments_lt`   cutting a comment makes the text shorter
* `length_string_token`     the marks of a string token are not in its text
* `tokenize_literal`        when the text comes back, and what comes back otherwise
-/

namespace BraceScript

namespace Token

variable {cs : List Char}

/-! ## comments in a text -/

/-- a block comment with both of its marks stands in the text -/
def HoldsBlock (cs : List Char) : Prop := ∃ a b d, cs = a ++ '/' :: '*' :: (b ++ '*' :: '/' :: d)

def HoldsComment (cs : List Char) : Prop := ['/', '/'] <:+: cs ∨ HoldsBlock cs

theorem length_cutLines_le (inside : Bool) (cs : List Char) : (cutLines inside cs).length ≤ cs.length := by
  induction cs generalizing inside with
  | nil => exact Nat.le_refl _
  | cons c cs ih =>
    rw [cutLines]
    split
    · exact Nat.succ_le_succ (ih false)
    · split
      · exact Nat.le_succ_of_le (ih true)
      · exact Nat.succ_le_succ (ih false)

theorem length_cutLines_lt (h : ['/', '/'] <:+: cs) : (cutLines false cs).length < cs.length := by
  induction cs with
  | nil => exact absurd (List.eq_nil_of_infix_nil h) (List.cons_ne_nil _ _)
  | cons c cs ih =>
    rw [cutLines]
    split
    · rename_i hc
      subst hc
      have hi : ['/', '/'] <:+: cs := by simpa [List.infix_cons_iff] using h
      exact Nat.succ_lt_succ (ih hi)
    · split
      · exact Nat.lt_succ_of_le (length_cutLines_le true cs)
      · rename_i hm
        have hn : ¬ ['/', '/'] <+: c :: cs := by
          intro hp
          obtain ⟨r, hr⟩ := hp
          obtain ⟨rfl, rfl⟩ := List.cons.inj hr
          simp at hm
        exact Nat.succ_lt_succ (ih ((List.infix_cons_iff.mp h).resolve_left hn))

theorem length_cutBlocks_le (phase : BlockPhase) (cs : List Char) :
    (cutBlocks phase cs).length ≤ cs.length := by
  induction cs generalizing phase with
  | nil => cases phase <;> exact Nat.le_refl _
  | cons c cs ih =>
    cases phase with
    | code =>
      rw [cutBlocks]
      split
      · exact Nat.le_succ_of_le (ih .opening)
      · exact Nat.succ_le_succ (ih .code)
    | opening => exact Nat.le_succ_of_le (ih .comment)
    | comment =>
      rw [cutBlocks]
      split
      · exact Nat.le_succ_of_le (ih .closing)
      · exact Nat.le_succ_of_le (ih .comment)
    | closing => exact Nat.le_succ_of_le (ih .code)

theorem exists_of_closes (h : closes cs = true) : ∃ b d, cs = b ++ '*' :: '/' :: d := by
  induction cs with
  | nil => cases h
  | cons c cs ih =>
    rw [closes, Bool.or_eq_true, Bool.and_eq_true, decide_eq_true_eq, decide_eq_true_eq] at h
    rcases h with ⟨rfl, h⟩ | h
    · obtain ⟨d, rfl⟩ := List.head?_eq_some_iff.mp h
      exact ⟨[], d, rfl⟩
    · obtain ⟨b, d, rfl⟩ := ih h
      exact ⟨c :: b, d, rfl⟩

/-- the test for an opening mark that is closed -/
theorem opens_iff {c : Char} : (c = '/' && cs.head? = some '*' && closes cs.tail) = true ↔
      ∃ b d, c :: cs = '/' :: '*' :: (b ++ '*' :: '/' :: d) := by
  constructor
  · intro h
    rw [Bool.and_eq_true, Bool.and_eq_true, decide_eq_true_eq, decide_eq_true_eq] at h
    obtain ⟨⟨rfl, hh⟩, hc⟩ := h
    obtain ⟨t, rfl⟩ := List.head?_eq_some_iff.mp hh
    obtain ⟨b, d, ht⟩ := exists_of_closes hc
    exact ⟨b, d, by rw [show t = _ from ht]⟩
  · rintro ⟨b, d, h⟩
    obtain ⟨rfl, rfl⟩ := List.cons.inj h
    simp [closes_append]

theorem length_cutBlocks_lt (h : HoldsBlock cs) : (cutBlocks .code cs).length < cs.length := by
  obtain ⟨a, b, d, rfl⟩ := h
  induction a with
  | nil =>
    rw [List.nil_append, cutBlocks, if_pos (opens_iff.mpr ⟨b, d, rfl⟩)]
    exact Nat.lt_succ_of_le (length_cutBlocks_le .opening _)
  | cons c a ih =>
    rw [List.cons_append, cutBlocks]
    split
    · exact Nat.lt_succ_of_le (length_cutBlocks_le .opening _)
    · exact Nat.succ_lt_succ ih

theorem cutBlocks_eq_self (h : ¬ HoldsBlock cs) : cutBlocks .code cs = cs := by
  induction cs with
  | nil => rfl
  | cons c cs ih =>
    have hn : ¬ (c = '/' && cs.head? = some '*' && closes cs.tail) = true := by
      intro ho
      obtain ⟨b, d, hb⟩ := opens_iff.mp ho
      exact h ⟨[], b, d, hb⟩
    rw [cutBlocks, if_neg hn, ih]
    rintro ⟨a, b, d, rfl⟩
    exact h ⟨c :: a, b, d, rfl⟩

theorem cutLines_eq_self (h : ¬ ['/', '/'] <:+: cs) : cutLines false cs = cs := by
  have hp := cutLines_plain (not_marked_of_free (r := []) h (by simp))
  simpa [cutLines] using hp

theorem cutComments_eq_self (h : ¬ HoldsComment cs) : cutComments cs = cs := by
  rw [HoldsComment, not_or] at h
  rw [cutComments, cutLines_eq_self h.1, cutBlocks_eq_self h.2]

/-- **A text that holds a comment gets shorter.** -/
theorem length_cutComments_lt (h : HoldsComment cs) : (cutComments cs).length < cs.length := by
  by_cases hl : ['/', '/'] <:+: cs
  · exact Nat.lt_of_le_of_lt (length_cutBlocks_le .code _) (length_cutLines_lt hl)
  · rw [cutComments, cutLines_eq_self hl]
    exact length_cutBlocks_lt (h.resolve_left hl)

/-- quote marks around a text neither make a comment nor break one up -/
theorem holdsComment_enclosed {q : Char} (hq : isQuote q = true) :
    HoldsComment (q :: cs ++ [q]) ↔ HoldsComment cs := by
  have hs : '/' ≠ q := by rcases eq_of_isQuote hq with rfl | rfl <;> decide
  have hl : ['/', '/'] <:+: q :: cs ++ [q] ↔ ['/', '/'] <:+: cs := by
    have hp : ¬ ['/', '/'] <:+ cs ++ [q] := by
      rintro ⟨a, ha⟩
      have he := congrArg List.getLast? ha
      simp [hs] at he
    rw [List.cons_append, List.infix_cons_iff, List.infix_concat_iff]
    simp [hs, hp]
  have hb : HoldsBlock (q :: cs ++ [q]) ↔ HoldsBlock cs := by
    constructor
    · rintro ⟨a, b, d, h⟩
      cases a with
      | nil => exact absurd (List.cons.inj h).1.symm hs
      | cons e a =>
        have ht : cs ++ [q] = a ++ '/' :: '*' :: (b ++ '*' :: '/' :: d) := (List.cons.inj h).2
        rcases List.eq_nil_or_concat d with rfl | ⟨d, e, rfl⟩
        · have hd : cs ++ [q] = (a ++ '/' :: '*' :: (b ++ ['*'])) ++ ['/'] := by simpa using ht
          exact absurd (List.singleton_inj.mp (List.append_inj' hd rfl).2).symm hs
        · have hd : cs ++ [q] = (a ++ '/' :: '*' :: (b ++ '*' :: '/' :: d)) ++ [e] := by simpa using ht
          exact ⟨a, b, d, (List.append_inj' hd rfl).1⟩
    · rintro ⟨a, b, d, rfl⟩
      exact ⟨q :: a, b, d ++ [q], by simp⟩
  rw [HoldsComment, HoldsComment, hl, hb]

/-! ## the text of a string token -/

theorem length_stripMark_dropWhile (mark : Char) (x : List Char) :
    (stripMark mark x).length ≤ (x.dropWhile (· = mark)).length := by
  have h := (List.dropWhile_suffix (l := (x.dropWhile (· = mark)).reverse) (· = mark)).length_le
  rwa [List.length_reverse, ← List.length_reverse, ← stripMark] at h

theorem length_stripMark_le (mark : Char) (x : List Char) : (stripMark mark x).length ≤ x.length :=
  Nat.le_trans (length_stripMark_dropWhile mark x) (List.dropWhile_suffix _).length_le

theorem length_stripMark_enclosed (mark : Char) (x : List Char) :
    (stripMark mark (mark :: x ++ [mark])).length ≤ x.length := by
  rw [stripMark, List.cons_append, List.dropWhile_cons_of_pos (by simp), List.dropWhile_append]
  split
  · simp
  · rw [List.reverse_append, List.reverse_singleton, List.singleton_append,
      List.dropWhile_cons_of_pos (by simp)]
    exact length_stripMark_le mark x

/-- a text keeps its ends exactly if the mark does not stand there -/
theorem stripMark_eq_self_iff {mark : Char} {x : List Char} :
    stripMark mark x = x ↔ x.head? ≠ some mark ∧ x.getLast? ≠ some mark := by
  have hd : ∀ y : List Char, y.dropWhile (· = mark) = y ↔ y.head? ≠ some mark := by
    intro y
    cases y with
    | nil => simp
    | cons c y => simp [List.dropWhile_eq_self_iff]
  constructor
  · intro h
    -- the first pass drops nothing, or the text would be shorter
    have hs := List.dropWhile_suffix (l := x) (· = mark)
    have hl := length_stripMark_dropWhile mark x
    rw [h] at hl
    have hx : x.dropWhile (· = mark) = x := hs.eq_of_length (Nat.le_antisymm hs.length_le hl)
    rw [stripMark, hx, List.reverse_eq_iff, hd, List.head?_reverse] at h
    exact ⟨(hd x).mp hx, h⟩
  · rintro ⟨hh, hl⟩
    rw [stripMark, (hd x).mpr hh, (hd x.reverse).mpr (by rwa [List.head?_reverse]), List.reverse_reverse]

theorem length_textOf_string {x : List Char} (h : (Lexeme.token .string).Matches x) :
    (textOf x).length + 2 ≤ x.length := by
  obtain ⟨mark, inner, hm, -, rfl⟩ := h
  have hl : (mark :: inner ++ [mark]).length = inner.length + 2 := by simp
  rw [textOf, String.length_ofList, hl, Nat.add_le_add_iff_right]
  rcases eq_of_isQuote hm with rfl | rfl
  · rw [stripMark_doubleQuoted]
    exact length_stripMark_enclosed _ _
  · exact Nat.le_trans (length_stripMark_le _ _) (length_stripMark_enclosed _ _)

/-- **A string token is shorter than the text that it is read from**, by the two marks at least. -/
theorem length_string_token {before : Option Char} {t : Token} (ht : t ∈ scan 0 before cs)
    (hk : t.kind = .string) : t.text.length + 2 ≤ cs.length := by
  obtain ⟨x, hx, htext, hm⟩ := exists_lexeme ht
  rw [hk] at hm
  rw [htext]
  exact Nat.le_trans (length_textOf_string hm) hx.length_le

theorem lexeme?_enclosed {q : Char} (hq : isQuote q = true) {x : List Char} (h : q ∉ x)
    (before : Option Char) : lexeme? before (q :: x ++ [q]) = some (.token .string, (q :: x ++ [q]).length) := by
  have hl : (q :: x ++ [q]).length = x.length + 2 := by simp
  have hs : string? (q :: x ++ [q]) = some (x.length + 2) := by
    rcases eq_of_isQuote hq with rfl | rfl
    · rw [string?, List.cons_append, enclosed?, if_pos (by simp), takeWhile_until h]
    · rw [string?, List.cons_append, enclosed?, if_neg (by simp), enclosed?, if_pos (by simp),
        takeWhile_until h]
  rw [List.cons_append] at hs hl ⊢
  rw [lexeme?, literal?_other hq (by decide), literal?_other hq (by decide), literal?_other hq (by decide),
    hs, hl]
  rfl

/-- a string that stands alone is one token -/
theorem scan_enclosed {q : Char} (hq : isQuote q = true) {x : List Char} (h : q ∉ x) :
    scan 0 none (q :: x ++ [q]) = [⟨.string, textOf (q :: x ++ [q])⟩] := by
  have hl := lexeme?_enclosed hq h none
  have hs := scan_lexeme (r := []) (List.cons_ne_nil q (x ++ [q])) (by rwa [List.append_nil])
  rwa [List.append_nil] at hs

end Token

open Token

/-- a text between two quote marks -/
def enclosed (q : Char) (c : String) : String := String.ofList (q :: c.toList ++ [q])

/-- **When a text in quote marks comes back.** The source is read as one string token with this text exactly
if no comment stands in the text and, in single quote marks, no double quote mark at its ends. A text without
comments gives one string token, in single quote marks stripped of the double ones at its ends. If a comment
stands in the text, every string token that is read is shorter than the text. -/
theorem tokenize_literal {q : Char} {c : String} (hq : isQuote q = true) (hc : q ∉ c.toList) :
    (tokenize (enclosed q c) = [⟨.string, c⟩] ↔ ¬ HoldsComment c.toList ∧
        (q = '\'' → c.toList.head? ≠ some '"' ∧ c.toList.getLast? ≠ some '"')) ∧
      (¬ HoldsComment c.toList → tokenize (enclosed q c) =
        [⟨.string, if q = '\'' then String.ofList (stripMark '"' c.toList) else c⟩]) ∧
      (HoldsComment c.toList → ∀ t ∈ tokenize (enclosed q c), t.kind = .string → t.text.length < c.length) := by
  have hs : ¬ HoldsComment c.toList → tokenize (enclosed q c) =
      [⟨.string, if q = '\'' then String.ofList (stripMark '"' c.toList) else c⟩] := by
    intro hn
    rw [← holdsComment_enclosed hq] at hn
    rw [tokenize, enclosed, String.toList_ofList, cutComments_eq_self hn, scan_enclosed hq hc]
    rcases eq_of_isQuote hq with rfl | rfl
    · rw [textOf_quoted hc, if_neg (by decide)]
    · rw [textOf, stripMark_enclosed hc, if_pos rfl]
  have hl : HoldsComment c.toList → ∀ t ∈ tokenize (enclosed q c), t.kind = .string →
      t.text.length < c.length := by
    intro hh t ht hk
    rw [← holdsComment_enclosed hq] at hh
    rw [tokenize, enclosed, String.toList_ofList] at ht
    have h1 := length_string_token ht hk
    have h2 := length_cutComments_lt hh
    rw [List.length_append, List.length_cons, List.length_singleton, String.length_toList] at h2
    omega
  refine ⟨⟨fun ht => ?_, fun h => ?_⟩, hs, hl⟩
  · have hn : ¬ HoldsComment c.toList := fun hh =>
      absurd (hl hh ⟨.string, c⟩ (by rw [ht]; exact List.mem_singleton_self _) rfl) (Nat.lt_irrefl _)
    refine ⟨hn, fun h1 => stripMark_eq_self_iff.mp ?_⟩
    rw [hs hn, if_pos h1] at ht
    obtain ⟨ht, -⟩ := List.cons.inj ht
    rw [← String.toList_ofList (l := stripMark '"' c.toList), (Token.mk.inj ht).2]
  · rw [hs h.1]
    split
    · rename_i h1
      rw [stripMark_eq_self_iff.mpr (h.2 h1), String.ofList_toList]
    · rfl

/-- the comment in `"a//b"` gets lost, and so do the double quote marks in `'"a"'` -/
theorem tokenize_literal_lost :
    '"' ∉ "a//b".toList ∧ tokenize (enclosed '"' "a//b") ≠ [⟨.string, "a//b"⟩] ∧
      '\'' ∉ "\"a\"".toList ∧ tokenize (enclosed '\'' "\"a\"") ≠ [⟨.string, "\"a\""⟩] := by
  have h1 : '"' ∉ "a//b".toList := by decide
  have h2 : '\'' ∉ "\"a\"".toList := by decide
  refine ⟨h1, fun h => ?_, h2, fun h => ?_⟩
  · exact ((tokenize_literal rfl h1).1.mp h).1 (Or.inl ⟨['a'], ['b'], rfl⟩)
  · exact (((tokenize_literal rfl h2).1.mp h).2 rfl).1 rfl

end BraceScript
