import BraceScript.Proofs.Token.Scanning
import Mathlib.Data.List.TakeWhile

/-!
# What becomes of every character

The text of a program without its comments is cut into lexemes and single characters that open none. The
lexemes are the tokens and the annotations; the other characters are skipped, and not only blanks are among
them: a mark that stands alone, a quote that is never closed, and characters of no class.

* `Lexeme.Matches`      the texts of a class
* `Unclaimed`           the first character of the text opens no lexeme
* `lexeme?_eq_none_iff`   no class matches where the first character is unclaimed
* `Scanned`             the segments of a text, each as the first class that matches gives it
* `tokenize_segments`   every source text has one such cut, and the tokens are its lexemes
-/

namespace BraceScript

open Text

namespace Token

variable {before : Option Char} {cs r : List Char} {n : Nat} {c : Char}

/-! ## the texts of a class -/

def isQuote (c : Char) : Bool := c == '"' || c == '\''

def Lexeme.Matches : Lexeme → List Char → Prop
  | .token .augAssign, x => ∃ t ∈ augAssigns, x = t.toList
  | .token .compare, x => ∃ t ∈ comparisons, x = t.toList
  | .token .op, x => ∃ t ∈ operators, x = t.toList
  | .token .string, x => ∃ mark inner, isQuote mark = true ∧ mark ∉ inner ∧ x = mark :: inner ++ [mark]
  | .typeHint, x => ∃ blanks inner, (∀ c ∈ blanks, isBlank c = true) ∧ inner ≠ [] ∧ '>' ∉ inner ∧
      x = hintText blanks inner
  | .token .number, x => x ≠ [] ∧ ∀ c ∈ x, isDigit c = true
  | .token .keyword, x => ∃ t ∈ keywords, x = t.toList
  | .token .ident, x => isName x = true
  | .token .symbol, x => ∃ c ∈ symbols, x = [c]
  | .token (.other _), _ => False

/-- the first `n` characters of the text are of the given form -/
def Heads (P : List Char → Prop) (cs : List Char) (n : Nat) : Prop := ∃ x r, cs = x ++ r ∧ x.length = n ∧ P x

theorem heads_literal {texts : List String} (h : literal? texts cs = some n) :
    Heads (fun x => ∃ t ∈ texts, x = t.toList) cs n := by
  obtain ⟨t, ht, rfl⟩ := Option.map_eq_some_iff.mp h
  have hp := List.find?_some ht
  obtain ⟨r, hr⟩ := List.isPrefixOf_iff_prefix.mp hp
  exact ⟨t.toList, r, hr.symm, String.length_toList, t, List.mem_of_find?_eq_some ht, rfl⟩

theorem heads_keyword (h : keyword? before cs = some n) :
    Heads (fun x => ∃ t ∈ keywords, x = t.toList) cs n := by
  obtain ⟨t, ht, rfl⟩ := Option.map_eq_some_iff.mp h
  have hp := List.find?_some ht
  rw [Bool.and_eq_true, Bool.and_eq_true] at hp
  obtain ⟨r, hr⟩ := List.isPrefixOf_iff_prefix.mp hp.1.1
  exact ⟨t.toList, r, hr.symm, String.length_toList, t, List.mem_of_find?_eq_some ht, rfl⟩

theorem takeWhile_mark {mark : Char} (h : mark ∈ cs) : ∃ r, cs = cs.takeWhile (· != mark) ++ mark :: r := by
  induction cs with
  | nil => cases h
  | cons c cs ih =>
    by_cases hc : c = mark
    · subst hc
      exact ⟨cs, by rw [List.takeWhile_cons_of_neg (by simp), List.nil_append]⟩
    · obtain ⟨r, hr⟩ := ih ((List.mem_cons.mp h).resolve_left (Ne.symm hc))
      exact ⟨r, by rw [List.takeWhile_cons_of_pos (by simpa using hc), List.cons_append, ← hr]⟩

theorem notMem_takeWhile (mark : Char) (cs : List Char) : mark ∉ cs.takeWhile (· != mark) := by
  intro h
  have hne := List.mem_takeWhile_imp h
  simp at hne

theorem heads_enclosed {mark : Char} (h : enclosed? mark cs = some n) :
    Heads (fun x => ∃ inner, mark ∉ inner ∧ x = mark :: inner ++ [mark]) cs n := by
  cases cs with
  | nil => cases h
  | cons c cs =>
    rw [enclosed?] at h
    split at h
    · rename_i hc
      obtain ⟨rfl, hm⟩ : c = mark ∧ mark ∈ cs := by simpa using hc
      obtain ⟨r, hr⟩ := takeWhile_mark hm
      refine ⟨c :: cs.takeWhile (· != c) ++ [c], r, ?_, ?_, _, notMem_takeWhile c cs, rfl⟩
      · rw [List.append_assoc, List.singleton_append, List.cons_append, ← hr]
      · simpa using h
    · cases h

theorem heads_string (h : string? cs = some n) : Heads (Lexeme.token .string).Matches cs n := by
  rw [string?] at h
  split at h
  · rename_i m he
    cases h
    obtain ⟨x, r, hx, hl, inner, hi, rfl⟩ := heads_enclosed he
    exact ⟨_, r, hx, hl, '"', inner, rfl, hi, rfl⟩
  · obtain ⟨x, r, hx, hl, inner, hi, rfl⟩ := heads_enclosed h
    exact ⟨_, r, hx, hl, '\'', inner, rfl, hi, rfl⟩

theorem heads_typeHint (h : typeHint? cs = some n) : Heads Lexeme.typeHint.Matches cs n := by
  unfold typeHint? at h
  split at h
  · rename_i cs
    dsimp only at h
    have hcs : cs.takeWhile isBlank ++ cs.drop (cs.takeWhile isBlank).length = cs :=
      List.prefix_iff_eq_append.mp (List.takeWhile_prefix isBlank)
    split at h
    · rename_i rest hrest
      split at h
      · cases h
      · rename_i hne
        rw [Bool.or_eq_true, decide_eq_true_eq, decide_eq_true_eq, not_or] at hne
        have hm : '>' ∈ rest := by
          by_contra hm
          apply hne.2
          rw [List.takeWhile_eq_self_iff.mpr]
          intro c hc
          have hne : c ≠ '>' := fun he => hm (he ▸ hc)
          simpa using hne
        obtain ⟨r, hr⟩ := takeWhile_mark hm
        cases h
        refine ⟨hintText (cs.takeWhile isBlank) (rest.takeWhile (· != '>')), r, ?_, ?_, _, _,
          fun c hc => List.mem_takeWhile_imp hc, ?_, notMem_takeWhile '>' rest, rfl⟩
        · have hsplit : cs.takeWhile isBlank ++ '<' :: (rest.takeWhile (· != '>') ++ '>' :: r) = cs := by
            rw [← hr, ← hrest, hcs]
          conv_lhs => rw [← hsplit]
          simp [hintText]
        · simp [hintText]
          omega
        · intro he
          exact hne.1 (by rw [he]; rfl)
    · cases h
  · cases h

theorem heads_number (h : number? cs = some n) : Heads (Lexeme.token .number).Matches cs n := by
  rw [number?] at h
  have hn : (cs.takeWhile isDigit).length = n ∧ n ≠ 0 := by
    split at h
    · cases h
    · cases h
      exact ⟨‹_›, Nat.succ_ne_zero _⟩
  refine ⟨cs.takeWhile isDigit, cs.dropWhile isDigit, List.takeWhile_append_dropWhile.symm, hn.1, ?_, ?_⟩
  · intro he
    rw [he] at hn
    exact hn.2 hn.1.symm
  · exact fun c hc => List.mem_takeWhile_imp hc

theorem heads_ident (h : ident? cs = some n) : Heads (Lexeme.token .ident).Matches cs n := by
  cases cs with
  | nil => cases h
  | cons c cs =>
    rw [ident?] at h
    split at h
    · rename_i hc
      cases h
      refine ⟨c :: cs.takeWhile isWord, cs.dropWhile isWord, ?_, rfl, ?_⟩
      · rw [List.cons_append, List.takeWhile_append_dropWhile]
      · show isName (c :: cs.takeWhile isWord) = true
        rw [isName, hc, Bool.true_and, List.all_eq_true]
        exact fun d hd => List.mem_takeWhile_imp hd
    · cases h

theorem heads_symbol (h : symbol? cs = some n) : Heads (Lexeme.token .symbol).Matches cs n := by
  cases cs with
  | nil => cases h
  | cons c cs =>
    rw [symbol?] at h
    split at h
    · rename_i hc
      cases h
      exact ⟨[c], cs, rfl, rfl, c, List.contains_iff_mem.mp hc, rfl⟩
    · cases h

/-- a class that is tried, and the classes after it -/
theorem lexemeOf_orElse {l : Lexeme} {o : Option Nat} {rest : Option (Lexeme × Nat)} {p : Lexeme × Nat}
    (h : (lexemeOf l o <|> rest) = some p) : (∃ n, o = some n ∧ p = (l, n)) ∨ rest = some p := by
  cases o with
  | none => exact Or.inr h
  | some n => exact Or.inl ⟨n, rfl, (Option.some.inj h).symm⟩

/-- **A lexeme is of the class that it is found for.** -/
theorem heads_lexeme {l : Lexeme} (h : lexeme? before cs = some (l, n)) : Heads l.Matches cs n := by
  unfold lexeme? at h
  obtain ⟨_, h, ⟨⟩⟩ | h := lexemeOf_orElse h
  · exact heads_literal h
  obtain ⟨_, h, ⟨⟩⟩ | h := lexemeOf_orElse h
  · exact heads_literal h
  obtain ⟨_, h, ⟨⟩⟩ | h := lexemeOf_orElse h
  · exact heads_literal h
  obtain ⟨_, h, ⟨⟩⟩ | h := lexemeOf_orElse h
  · exact heads_string h
  obtain ⟨_, h, ⟨⟩⟩ | h := lexemeOf_orElse h
  · exact heads_typeHint h
  obtain ⟨_, h, ⟨⟩⟩ | h := lexemeOf_orElse h
  · exact heads_number h
  obtain ⟨_, h, ⟨⟩⟩ | h := lexemeOf_orElse h
  · exact heads_keyword h
  obtain ⟨_, h, ⟨⟩⟩ | h := lexemeOf_orElse h
  · exact heads_ident h
  obtain ⟨m, h, he⟩ := Option.map_eq_some_iff.mp h
  cases he
  exact heads_symbol h

theorem Lexeme.Matches.ne_nil {l : Lexeme} {x : List Char} (h : l.Matches x) : x ≠ [] := by
  have htexts : ∀ {texts : List String}, (texts.all fun t => !t.toList.isEmpty) = true →
      (∃ t ∈ texts, x = t.toList) → x ≠ [] := by
    rintro texts ht ⟨t, hm, rfl⟩ he
    have := List.all_eq_true.mp ht t hm
    rw [he] at this
    cases this
  cases l with
  | typeHint =>
    obtain ⟨blanks, inner, -, -, -, rfl⟩ := h
    exact List.cons_ne_nil _ _
  | token kind =>
    cases kind with
    | augAssign => exact htexts (by decide) h
    | compare => exact htexts (by decide) h
    | op => exact htexts (by decide) h
    | string =>
      obtain ⟨mark, inner, -, -, rfl⟩ := h
      exact List.cons_ne_nil _ _
    | number => exact h.1
    | keyword => exact htexts (by decide) h
    | ident =>
      rintro rfl
      cases h
    | symbol =>
      obtain ⟨c, -, rfl⟩ := h
      exact List.cons_ne_nil _ _
    | other _ => cases h

/-! ## characters that open no lexeme -/

/-- the characters that open an operator or a mark, or do so together with what follows -/
def openingMarks : List Char :=
  symbols ++ ['+', '-', '*', '/', '%', '=', '<', '>', '!', '"', '\'']

/-- a character of no class -/
def isStray (c : Char) : Bool :=
  !isBlank c && !isDigit c && !isNameStart c && !openingMarks.contains c

theorem eq_of_isQuote (h : isQuote c = true) : c = '"' ∨ c = '\'' := by
  simpa [isQuote] using h

/-- a character that is not blank and opens no lexeme: a mark that stands alone, a quote that is never
closed, or a character of no class -/
def Dropped (c : Char) (r : List Char) : Prop :=
  c = '!' ∧ r.head? ≠ some '=' ∨ isQuote c = true ∧ c ∉ r ∨ isStray c = true

/-- the first character of the text opens no lexeme -/
def Unclaimed : List Char → Prop
  | [] => False
  | c :: r => isBlank c = true ∨ Dropped c r

theorem Dropped.not_blank (h : Dropped c r) : isBlank c = false := by
  rcases h with ⟨rfl, -⟩ | ⟨h, -⟩ | h
  · decide
  · rcases eq_of_isQuote h with rfl | rfl
    · decide
    · decide
  · simp only [isStray, Bool.and_eq_true, Bool.not_eq_true'] at h
    exact h.1.1.1

theorem lexeme?_mark (h : r.head? ≠ some '=') (before : Option Char) : lexeme? before ('!' :: r) = none := by
  have hc : ('!' == '!') = true := rfl
  have hcompare : literal? comparisons ('!' :: r) = none := by
    cases r with
    | nil => rfl
    | cons d r =>
      have hd : '=' ≠ d := fun he => h (by rw [he]; rfl)
      simp [literal?, comparisons, List.isPrefixOf, hd]
  rw [lexeme?, literal?_other (p := (· == '!')) hc (by decide), hcompare,
    literal?_other (p := (· == '!')) hc (by decide), string?_other (p := (· == '!')) hc (by decide),
    typeHint?_other (p := (· == '!')) hc (by decide), number?_other (by decide),
    keyword?_other (p := (· == '!')) hc before (by decide), ident?_other (by decide),
    symbol?_other (p := (· == '!')) hc (by decide)]
  rfl

theorem lexeme?_quote (hc : isQuote c = true) (h : c ∉ r)
    (before : Option Char) : lexeme? before (c :: r) = none := by
  have hs : string? (c :: r) = none ∧ isDigit c = false ∧ isNameStart c = false := by
    rcases eq_of_isQuote hc with rfl | rfl
    · exact ⟨by simp [string?, enclosed?, h], by decide, by decide⟩
    · exact ⟨by simp [string?, enclosed?, h], by decide, by decide⟩
  rw [lexeme?, literal?_other hc (by decide), literal?_other hc (by decide), literal?_other hc (by decide),
    hs.1, typeHint?_other hc (by decide), number?_other hs.2.1, keyword?_other hc before (by decide),
    ident?_other hs.2.2, symbol?_other hc (by decide)]
  rfl

theorem lexeme?_stray (h : isStray c = true) (r : List Char) (before : Option Char) :
    lexeme? before (c :: r) = none := by
  have hc := h
  simp only [isStray, Bool.and_eq_true, Bool.not_eq_true'] at hc
  obtain ⟨⟨⟨-, hd⟩, hn⟩, -⟩ := hc
  rw [lexeme?, literal?_other h (by decide), literal?_other h (by decide), literal?_other h (by decide),
    string?_other h (by decide), typeHint?_other h (by decide), number?_other hd,
    keyword?_other h before (by decide), ident?_other hn, symbol?_other h (by decide)]
  rfl

theorem lexemeOf_orElse_none {l : Lexeme} {o : Option Nat} {rest : Option (Lexeme × Nat)}
    (h : (lexemeOf l o <|> rest) = none) : o = none ∧ rest = none := by
  cases o with
  | none => exact ⟨rfl, h⟩
  | some n => cases h

theorem not_prefix_of_literal? {texts : List String} (h : literal? texts cs = none) {t : String}
    (ht : t ∈ texts) : ¬ t.toList <+: cs := by
  rw [literal?, Option.map_eq_none_iff, List.find?_eq_none] at h
  exact fun hp => h t ht (List.isPrefixOf_iff_prefix.mpr hp)

/-- a character that opens none of these classes, and is neither blank nor one of the marks that may stand
alone, is of no class -/
theorem isStray_of_none (hcompare : literal? comparisons (c :: r) = none)
    (hop : literal? operators (c :: r) = none) (hnumber : number? (c :: r) = none)
    (hident : ident? (c :: r) = none) (hsymbol : symbol? (c :: r) = none) (hb : isBlank c = false)
    (hmark : c ≠ '!') (hquote : ¬ isQuote c = true) : isStray c = true := by
  have hd : isDigit c = false := by
    cases hd : isDigit c with
    | false => rfl
    | true => simp [number?, hd] at hnumber
  have hn : isNameStart c = false := by
    cases hn : isNameStart c with
    | false => rfl
    | true => simp [ident?, hn] at hident
  have hs : c ∉ symbols := fun hs => by simp [symbol?, hs] at hsymbol
  have hone : ∀ {texts : List String}, literal? texts (c :: r) = none → ∀ t ∈ texts, t.toList ≠ [c] :=
    fun h t ht he => not_prefix_of_literal? h ht (by rw [he]; exact ⟨r, rfl⟩)
  have ho : c ∉ openingMarks := by
    intro hm
    rw [openingMarks, List.mem_append] at hm
    have hm := hm.resolve_left hs
    simp only [List.mem_cons, List.not_mem_nil, or_false] at hm
    rcases hm with rfl | rfl | rfl | rfl | rfl | rfl | rfl | rfl | rfl | rfl | rfl
    · exact hone hop "+" (by decide) rfl
    · exact hone hop "-" (by decide) rfl
    · exact hone hop "*" (by decide) rfl
    · exact hone hop "/" (by decide) rfl
    · exact hone hop "%" (by decide) rfl
    · exact hone hop "=" (by decide) rfl
    · exact hone hcompare "<" (by decide) rfl
    · exact hone hcompare ">" (by decide) rfl
    · exact hmark rfl
    · exact hquote rfl
    · exact hquote rfl
  rw [isStray, hb, hd, hn, List.contains_eq_mem, decide_eq_false ho]
  rfl

/-- **No class matches exactly where the first character is blank or dropped.** -/
theorem lexeme?_eq_none_iff (before : Option Char) (c : Char) (r : List Char) :
    lexeme? before (c :: r) = none ↔ Unclaimed (c :: r) := by
  constructor
  · intro h
    unfold lexeme? at h
    obtain ⟨-, h⟩ := lexemeOf_orElse_none h
    obtain ⟨hcompare, h⟩ := lexemeOf_orElse_none h
    obtain ⟨hop, h⟩ := lexemeOf_orElse_none h
    obtain ⟨hstring, h⟩ := lexemeOf_orElse_none h
    obtain ⟨-, h⟩ := lexemeOf_orElse_none h
    obtain ⟨hnumber, h⟩ := lexemeOf_orElse_none h
    obtain ⟨-, h⟩ := lexemeOf_orElse_none h
    obtain ⟨hident, h⟩ := lexemeOf_orElse_none h
    have hsymbol : symbol? (c :: r) = none := Option.map_eq_none_iff.mp h
    by_cases hb : isBlank c = true
    · exact Or.inl hb
    right
    by_cases hmark : c = '!'
    · refine Or.inl ⟨hmark, fun he => ?_⟩
      obtain ⟨r, rfl⟩ := List.head?_eq_some_iff.mp he
      exact not_prefix_of_literal? hcompare (t := "!=") (by decide) ⟨r, by rw [hmark]; rfl⟩
    by_cases hquote : isQuote c = true
    · refine Or.inr (Or.inl ⟨hquote, fun hm => ?_⟩)
      rcases eq_of_isQuote hquote with rfl | rfl
      · simp [string?, enclosed?, hm] at hstring
      · simp [string?, enclosed?, hm] at hstring
    · refine Or.inr (Or.inr ?_)
      exact isStray_of_none hcompare hop hnumber hident hsymbol (by simpa using hb) hmark hquote
  · rintro (h | ⟨rfl, h⟩ | ⟨hq, h⟩ | h)
    · exact lexeme?_blank h before r
    · exact lexeme?_mark h before
    · exact lexeme?_quote hq h before
    · exact lexeme?_stray h r before

/-! ## segments -/

/-- a piece of a text: a lexeme, or a character that opens none -/
inductive Segment
  | lexeme (l : Lexeme) (text : List Char)
  | gap (c : Char)
deriving DecidableEq

def Segment.text : Segment → List Char
  | lexeme _ x => x
  | gap c => [c]

def Segment.token? : Segment → Option Token
  | lexeme (.token kind) x => some ⟨kind, textOf x⟩
  | lexeme .typeHint _ => none
  | gap _ => none

def segmentsText (segs : List Segment) : List Char := segs.flatMap Segment.text

/-- each segment is what the first class that matches there gives, after the given character -/
def Scanned : Option Char → List Segment → Prop
  | _, [] => True
  | before, .lexeme l x :: segs =>
    x ≠ [] ∧ lexeme? before (x ++ segmentsText segs) = some (l, x.length) ∧ Scanned x.getLast? segs
  | before, .gap c :: segs => lexeme? before (c :: segmentsText segs) = none ∧ Scanned (some c) segs

theorem scan_lexeme {l : Lexeme} {x : List Char} (hx : x ≠ [])
    (h : lexeme? before (x ++ r) = some (l, x.length)) :
    scan 0 before (x ++ r) = (Segment.lexeme l x).token?.toList ++ scan 0 x.getLast? r := by
  obtain ⟨c, x, rfl⟩ := List.exists_cons_of_ne_nil hx
  rw [List.cons_append] at h ⊢
  have ht : (c :: (x ++ r)).take (c :: x).length = c :: x := List.take_left
  have hl : (c :: x).getLast? = x.getLast?.or (some c) := by
    rw [List.getLast?_cons]
    cases x.getLast? <;> rfl
  rw [scan, h]
  cases l with
  | typeHint =>
    dsimp only
    rw [List.length_cons, Nat.add_sub_cancel, scan_skip, hl]
    rfl
  | token kind =>
    dsimp only
    rw [ht, List.length_cons, Nat.add_sub_cancel, scan_skip, hl]
    rfl

theorem scan_gap (h : lexeme? before (c :: r) = none) : scan 0 before (c :: r) = scan 0 (some c) r := by
  rw [scan, h]

/-- every text has a cut, and the tokens are those of its segments -/
theorem exists_scanned (before : Option Char) (cs : List Char) :
    ∃ segs, segmentsText segs = cs ∧ Scanned before segs ∧ scan 0 before cs = segs.filterMap Segment.token? := by
  induction hn : cs.length using Nat.strong_induction_on generalizing before cs with
  | _ n ih =>
    cases cs with
    | nil => exact ⟨[], rfl, trivial, rfl⟩
    | cons c cs =>
      cases h : lexeme? before (c :: cs) with
      | none =>
        obtain ⟨segs, rfl, hs, hscan⟩ := ih cs.length (by rw [← hn]; exact Nat.lt_succ_self _) (some c) cs rfl
        exact ⟨.gap c :: segs, rfl, ⟨h, hs⟩, by rw [scan_gap h, hscan]; rfl⟩
      | some p =>
        obtain ⟨l, n⟩ := p
        obtain ⟨x, r, hx, rfl, hm⟩ := heads_lexeme h
        have hne := hm.ne_nil
        have hlt : r.length < (c :: cs).length := by
          rw [hx, List.length_append]
          have := List.length_pos_iff.mpr hne
          omega
        obtain ⟨segs, rfl, hs, hscan⟩ := ih r.length (hn ▸ hlt) x.getLast? r rfl
        rw [hx] at h
        refine ⟨.lexeme l x :: segs, hx.symm, ⟨hne, h, hs⟩, ?_⟩
        rw [hx, scan_lexeme hne h, hscan, List.filterMap_cons]
        cases (Segment.lexeme l x).token? <;> rfl

theorem Segment.text_ne_nil {s : Segment} {segs : List Segment}
    (h : Scanned before (s :: segs)) : s.text ≠ [] := by
  cases s with
  | lexeme l x => exact h.1
  | gap c => exact List.cons_ne_nil c []

/-- what follows a segment of a cut is cut after the last character of the segment -/
theorem Scanned.tail {s : Segment} {segs : List Segment} (h : Scanned before (s :: segs)) :
    Scanned s.text.getLast? segs := by
  cases s with
  | lexeme l x => exact h.2.2
  | gap c => exact h.2

theorem Scanned.at {early late : List Segment} (h : Scanned before (early ++ late)) : ∃ b, Scanned b late := by
  induction early generalizing before with
  | nil => exact ⟨before, h⟩
  | cons s early ih => exact ih (Scanned.tail h)

/-- the first segments of two cuts of one text are the same -/
theorem Scanned.head_eq {s s' : Segment} {segs segs' : List Segment} (h : Scanned before (s :: segs))
    (h' : Scanned before (s' :: segs'))
    (ht : s.text ++ segmentsText segs = s'.text ++ segmentsText segs') : s = s' := by
  cases s with
  | lexeme l x =>
    have he : lexeme? before (x ++ segmentsText segs) = some (l, x.length) := h.2.1
    cases s' with
    | lexeme l' x' =>
      rw [show x ++ segmentsText segs = x' ++ segmentsText segs' from ht, h'.2.1] at he
      obtain ⟨hk, hl⟩ := Prod.mk.inj (Option.some.inj he)
      have hx : x = x' := (List.append_inj ht hl.symm).1
      rw [hk, hx]
    | gap c =>
      rw [show x ++ segmentsText segs = c :: segmentsText segs' from ht, h'.1] at he
      cases he
  | gap c =>
    have he : lexeme? before (c :: segmentsText segs) = none := h.1
    cases s' with
    | lexeme l x =>
      rw [show c :: segmentsText segs = x ++ segmentsText segs' from ht, h'.2.1] at he
      cases he
    | gap c' => rw [(List.cons.inj ht).1]

/-- a text has only one cut -/
theorem scanned_unique {segs segs' : List Segment} (ht : segmentsText segs = segmentsText segs')
    (h : Scanned before segs) (h' : Scanned before segs') : segs = segs' := by
  induction segs generalizing segs' before with
  | nil =>
    cases segs' with
    | nil => rfl
    | cons s segs' =>
      have he := (List.append_eq_nil_iff.mp ht.symm).1
      exact absurd he (Segment.text_ne_nil h')
  | cons s segs ih =>
    cases segs' with
    | nil =>
      have he := (List.append_eq_nil_iff.mp ht).1
      exact absurd he (Segment.text_ne_nil h)
    | cons s' segs' =>
      obtain rfl := Scanned.head_eq h h' ht
      rw [ih (List.append_cancel_left ht) (Scanned.tail h) (Scanned.tail h')]

theorem Scanned.matches {l : Lexeme} {x : List Char} {late : List Segment}
    (h : Scanned before (.lexeme l x :: late)) : l.Matches x := by
  obtain ⟨y, r, ht, hy, hm⟩ := heads_lexeme h.2.1
  obtain ⟨rfl, -⟩ := List.append_inj ht hy.symm
  exact hm

/-- a token has the text of a lexeme of its kind, which stands in the text that is scanned -/
theorem exists_lexeme {cs : List Char} {t : Token} (h : t ∈ scan 0 before cs) :
    ∃ x, x <:+: cs ∧ t.text = textOf x ∧ (Lexeme.token t.kind).Matches x := by
  obtain ⟨segs, rfl, hs, hscan⟩ := exists_scanned before cs
  rw [hscan, List.mem_filterMap] at h
  obtain ⟨seg, hseg, ht⟩ := h
  obtain ⟨early, late, rfl⟩ := List.append_of_mem hseg
  obtain ⟨b, hb⟩ := hs.at
  cases seg with
  | gap c => cases ht
  | lexeme l x =>
    cases l with
    | typeHint => cases ht
    | token kind =>
      cases ht
      refine ⟨x, ⟨segmentsText early, segmentsText late, ?_⟩, rfl, hb.matches⟩
      simp only [segmentsText, List.flatMap_append, List.flatMap_cons, Segment.text, List.append_assoc]

/-- a segment is a gap exactly where the text opens no lexeme -/
theorem Scanned.gap_iff {s : Segment} {late : List Segment} (h : Scanned before (s :: late)) :
    (∃ c, s = .gap c) ↔ Unclaimed (segmentsText (s :: late)) := by
  cases s with
  | lexeme l x =>
    obtain ⟨c, x, rfl⟩ := List.exists_cons_of_ne_nil h.1
    have hs : lexeme? before (c :: (x ++ segmentsText late)) = some (l, (c :: x).length) := h.2.1
    constructor
    · rintro ⟨c, hc⟩
      cases hc
    · intro hu
      rw [(lexeme?_eq_none_iff before c (x ++ segmentsText late)).mpr hu] at hs
      cases hs
  | gap c => exact ⟨fun _ => (lexeme?_eq_none_iff before c _).mp h.1, fun _ => ⟨c, rfl⟩⟩

/-- the gaps that are not blank are the characters that get lost -/
theorem Scanned.dropped_iff {late : List Segment}
    (h : Scanned before (.gap c :: late)) : isBlank c = false ↔ Dropped c (segmentsText late) := by
  have hu : Unclaimed (c :: segmentsText late) := (lexeme?_eq_none_iff before c _).mp h.1
  constructor
  · intro hb
    exact hu.resolve_left fun hc => by rw [hb] at hc; cases hc
  · exact Dropped.not_blank

end Token

open Token

/-- Every source text without its comments is the concatenation of its segments, which only one cut gives. The
tokens are those of the lexemes, annotations having none, and nothing is ever refused: a character that opens no
lexeme is a gap, be it a blank or not. -/
theorem tokenize_segments (source : String) :
    ∃ segs : List Segment, segmentsText segs = cutComments source.toList ∧ Scanned none segs ∧
      (∀ segs', segmentsText segs' = cutComments source.toList → Scanned none segs' → segs' = segs) ∧
      tokenize source = segs.filterMap Segment.token? ∧
      (∀ early l x late, segs = early ++ .lexeme l x :: late → l.Matches x) ∧
      (∀ early s late, segs = early ++ s :: late →
        ((∃ c, s = .gap c) ↔ Unclaimed (segmentsText (s :: late)))) ∧
      (∀ early c late, segs = early ++ .gap c :: late →
        (isBlank c = false ↔ Dropped c (segmentsText late))) := by
  obtain ⟨segs, ht, hs, hscan⟩ := exists_scanned none (cutComments source.toList)
  have hat : ∀ early late, segs = early ++ late → ∃ b, Scanned b late := by
    intro early late he
    rw [he] at hs
    exact hs.at
  refine ⟨segs, ht, hs, ?_, hscan, ?_, ?_, ?_⟩
  · intro segs' ht' hs'
    exact scanned_unique (ht'.trans ht.symm) hs' hs
  · intro early l x late he
    obtain ⟨b, hb⟩ := hat early _ he
    exact hb.matches
  · intro early s late he
    obtain ⟨b, hb⟩ := hat early _ he
    exact hb.gap_iff
  · intro early c late he
    obtain ⟨b, hb⟩ := hat early _ he
    exact hb.dropped_iff

/-- in `1 ! 2` the mark gets lost -/
theorem tokenize_segments_mark :
    ∃ segs, segmentsText segs = ['1', ' ', '!', ' ', '2'] ∧ .gap '!' ∈ segs ∧ isBlank '!' = false ∧
      tokenize "1 ! 2" = [⟨.number, "1"⟩, ⟨.number, "2"⟩] := by
  obtain ⟨segs, ht, -, hu, htok, -, -, -⟩ := tokenize_segments "1 ! 2"
  have hs : [.lexeme (.token .number) ['1'], .gap ' ', .gap '!', .gap ' ', .lexeme (.token .number) ['2']] = segs := by
    apply hu
    · decide +kernel
    · refine ⟨?_, ?_, ?_, ?_, ?_, ?_, ?_, trivial⟩
      all_goals decide +kernel
  refine ⟨segs, ?_, ?_, by decide, ?_⟩
  · rw [ht]
    decide +kernel
  · rw [← hs]
    decide
  · rw [htok, ← hs]
    decide +kernel

end BraceScript
