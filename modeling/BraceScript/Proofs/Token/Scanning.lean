import BraceScript.Proofs.Token.Cutting

/-!
# Scanning

The tokens of a text, lexeme by lexeme: a token that is followed by a blank, or by nothing, is read as it
was written, and the rest of the text is read on its own.

* `scan_blank`, `scan_skip`     steps of a scan
* `scan_spelled`, `scan_hint`   the lexemes of a text
* `tokensOf_spelled`            comments cut out first
-/

namespace BraceScript

open Text

namespace Token

/-! ## the lexemes of a text -/

theorem scan_before {before : Option Char} (h : beginsWord before = true) (cs : List Char) :
    scan 0 before cs = scan 0 none cs := by
  cases cs with
  | nil => rfl
  | cons c cs =>
    have hk : keyword? before (c :: cs) = keyword? none (c :: cs) := by
      rw [keyword?, keyword?, h, beginsWord]
    rw [scan, scan, lexeme?, lexeme?, hk]

theorem scan_blank {c : Char} (h : isBlank c = true) (before : Option Char) (cs : List Char) :
    scan 0 before (c :: cs) = scan 0 none cs := by
  rw [scan, lexeme?_blank h]
  exact scan_before (by simp [beginsWord, isWord_blank h]) cs

/-- before a blank it does not matter what stands before -/
theorem scan_stops {r : List Char} (h : Stops r) (before : Option Char) :
    scan 0 before r = scan 0 none r := by
  cases r with
  | nil => rfl
  | cons c r =>
    have hc := stops_cons.mp h
    rw [scan_blank hc, scan_blank hc]

/-- the characters of a lexeme are skipped -/
theorem scan_skip (x r : List Char) (before : Option Char) :
    scan x.length before (x ++ r) = scan 0 (x.getLast?.or before) r := by
  induction x generalizing before with
  | nil => rfl
  | cons c x ih =>
    rw [List.length_cons, List.cons_append, scan, ih, List.getLast?_cons]
    cases x.getLast? <;> rfl

theorem scan_token {x r : List Char} {kind : Kind} (hx : x ≠ [])
    (h : lexeme? none (x ++ r) = some (.token kind, x.length)) (hr : Stops r) :
    scan 0 none (x ++ r) = ⟨kind, textOf x⟩ :: scan 0 none r := by
  obtain ⟨c, x, rfl⟩ := List.exists_cons_of_ne_nil hx
  rw [List.cons_append] at h ⊢
  rw [scan, h]
  have ht : (c :: (x ++ r)).take (c :: x).length = c :: x := List.take_left
  dsimp only
  rw [ht, List.length_cons, Nat.add_sub_cancel, scan_skip, scan_stops hr]

/-! ## the text of a token -/

theorem dropWhile_free {mark : Char} {x : List Char} (h : mark ∉ x) : x.dropWhile (· = mark) = x := by
  cases x with
  | nil => rfl
  | cons c x => exact List.dropWhile_cons_of_neg (by simpa using Ne.symm (List.ne_of_not_mem_cons h))

theorem stripMark_free {mark : Char} {x : List Char} (h : mark ∉ x) : stripMark mark x = x := by
  rw [stripMark, dropWhile_free h, dropWhile_free (by simpa using h), List.reverse_reverse]

theorem textOf_free {s : String} (h1 : '\'' ∉ s.toList) (h2 : '"' ∉ s.toList) : textOf s.toList = s := by
  rw [textOf, stripMark_free h1, stripMark_free h2, String.ofList_toList]

/-- the marks around a text that does not hold them are stripped -/
theorem stripMark_enclosed {mark : Char} {x : List Char} (h : mark ∉ x) :
    stripMark mark (mark :: x ++ [mark]) = x := by
  rw [stripMark, List.cons_append, List.dropWhile_cons_of_pos (by simp)]
  cases x with
  | nil => simp
  | cons c x =>
    have hc : c ≠ mark := Ne.symm (List.ne_of_not_mem_cons h)
    rw [List.cons_append, List.dropWhile_cons_of_neg (by simpa using hc), ← List.cons_append, List.reverse_append,
      List.reverse_singleton, List.singleton_append, List.dropWhile_cons_of_pos (by simp),
      dropWhile_free (by rwa [List.mem_reverse]), List.reverse_reverse]

theorem stripMark_doubleQuoted (x : List Char) :
    stripMark '\'' ('"' :: x ++ ['"']) = '"' :: x ++ ['"'] := by
  simp [stripMark]

theorem textOf_quoted {s : String} (h : '"' ∉ s.toList) : textOf ('"' :: s.toList ++ ['"']) = s := by
  rw [textOf, stripMark_doubleQuoted, stripMark_enclosed h, String.ofList_toList]

theorem textOf_spelled {t : Token} (h : t.Canonical) : textOf t.spelled = t.text := by
  by_cases hk : t.kind = .string
  · obtain ⟨hs, hq, -⟩ := spelled_string h hk
    rw [hs]
    exact textOf_quoted hq
  · obtain ⟨hs, hp⟩ := spelled_plain h hk
    rw [hs]
    exact textOf_free hp.unquoted.1 hp.unquoted.2

theorem spelled_ne_nil {t : Token} (h : t.Canonical) : t.spelled ≠ [] := by
  by_cases hk : t.kind = .string
  · rw [(spelled_string h hk).1]
    simp
  · obtain ⟨hs, hp⟩ := spelled_plain h hk
    rw [hs]
    exact hp.nonempty

/-- a canonical token before a blank is read -/
theorem scan_spelled {t : Token} (h : t.Canonical) {r : List Char} (hr : Stops r) :
    scan 0 none (t.spelled ++ r) = t :: scan 0 none r := by
  rw [scan_token (spelled_ne_nil h) (lexeme?_spelled h hr) hr, textOf_spelled h]

/-- an annotation is skipped -/
theorem scan_hint {blanks inner : List Char} (hb : ∀ c ∈ blanks, isBlank c = true) (hi : inner ≠ [])
    (hn : '>' ∉ inner) (r : List Char) : scan 0 none (hintText blanks inner ++ r) = scan 0 none r := by
  have hl := lexeme?_hint hb hi hn r none
  have hs : hintText blanks inner = ':' :: (':' :: blanks ++ '<' :: inner ++ ['>']) := by
    simp [hintText]
  rw [hs, List.cons_append] at hl ⊢
  rw [scan, hl]
  dsimp only
  rw [List.length_cons, Nat.add_sub_cancel, scan_skip, List.getLast?_append]
  exact scan_before rfl r

def tokensOf (cs : List Char) : List Token := scan 0 none (cutComments cs)

theorem tokensOf_spelled {t : Token} (h : t.Canonical) {r : List Char} (hr : Stops r) :
    tokensOf (t.spelled ++ r) = t :: tokensOf r := by
  have hc : Stops (cutComments r) := by
    cases r with
    | nil => exact stops_nil
    | cons c r =>
      have hb := stops_cons.mp hr
      have hn : '/' ∉ [c] := by simpa using Ne.symm (ne_of_blank hb (by decide))
      have he := cutComments_noSlash hn r
      rw [List.singleton_append] at he
      rw [he]
      exact stops_cons.mpr hb
  rw [tokensOf, cutComments_spelled h hr, scan_spelled h hc, tokensOf]

end Token

end BraceScript
