import BraceScript.Token.Lexer
import Mathlib.Data.List.Find

/-!
# Lexemes

Which class matches at the head of a text. A lexeme that is followed by a blank, or by nothing, is read as
it would be alone.

* `Stops`            a text is empty or begins with a blank
* `lexeme?_blank`    a blank opens no lexeme
* `Canonical`        the tokens that source text can give
* `spelled_plain`    a canonical token that is not a string is written as its text
* `lexeme?_spelled`  a canonical token is the lexeme that it is spelled as
* `lexeme?_hint`     an annotation gives no token
-/

namespace BraceScript.Token

variable {c : Char} {x r : List Char}

open Text

/-! ## blanks -/

def blankCodes : List Nat :=
  [9, 10, 11, 12, 13, 28, 29, 30, 31, 32, 133, 160, 5760, 8192, 8193, 8194, 8195, 8196, 8197, 8198, 8199,
    8200, 8201, 8202, 8232, 8233, 8239, 8287, 12288]

/-- a class that has none of the listed code points has no blank -/
theorem false_of_blank {p : Char → Bool} (h : (blankCodes.any fun n => p (Char.ofNat n)) = false)
    (hc : isBlank c = true) : p c = false := by
  have hm : c.toNat ∈ blankCodes := by
    simp only [isBlank, Bool.or_eq_true, Bool.and_eq_true, decide_eq_true_eq, beq_iff_eq] at hc
    simp only [blankCodes, List.mem_cons, List.not_mem_nil, or_false]
    omega
  have hp := List.any_eq_false.mp h _ hm
  rw [Char.ofNat_toNat] at hp
  simpa using hp

theorem isWord_blank (h : isBlank c = true) : isWord c = false :=
  false_of_blank (by decide +kernel) h

theorem isDigit_blank (h : isBlank c = true) : isDigit c = false :=
  false_of_blank (by decide +kernel) h

theorem isNameStart_blank (h : isBlank c = true) : isNameStart c = false :=
  false_of_blank (by decide +kernel) h

theorem ne_of_blank {d : Char} (h : isBlank c = true) (hd : isBlank d = false) : c ≠ d := by
  rintro rfl
  rw [h] at hd
  cases hd

/-- the text is empty or begins with a blank -/
def Stops (cs : List Char) : Prop := ∀ c ∈ cs.head?, isBlank c = true

theorem stops_nil : Stops [] := nofun

theorem stops_cons {cs : List Char} : Stops (c :: cs) ↔ isBlank c = true := by
  simp [Stops]

/-- a run of characters of a class ends where another character stands -/
theorem takeWhile_run {p : Char → Bool} {xs : List Char} (hx : ∀ c ∈ xs, p c = true)
    (hr : ∀ c ∈ r.head?, p c = false) : (xs ++ r).takeWhile p = xs := by
  rw [List.takeWhile_append_of_pos hx]
  cases r with
  | nil => simp
  | cons c r => rw [List.takeWhile_cons_of_neg (by simp [hr c rfl]), List.append_nil]

/-! ## what a character does not open -/

section
variable {p : Char → Bool} {c : Char} {cs : List Char} (hc : p c = true)
include hc

/-- texts that begin with a character of another class -/
theorem isPrefixOf_other {t : String} (h : (t.toList.head?.any fun d => !p d) = true) :
    t.toList.isPrefixOf (c :: cs) = false := by
  cases ht : t.toList with
  | nil => simp [ht] at h
  | cons d ds =>
    have hn : d ≠ c := by
      rintro rfl
      simp [ht, hc] at h
    simp [List.isPrefixOf, hn]

theorem literal?_other {texts : List String}
    (h : (texts.all fun t => t.toList.head?.any fun d => !p d) = true) :
    literal? texts (c :: cs) = none := by
  rw [literal?, Option.map_eq_none_iff, List.find?_eq_none]
  intro t ht
  rw [isPrefixOf_other hc (List.all_eq_true.mp h t ht)]
  nofun

theorem keyword?_other (before : Option Char)
    (h : (keywords.all fun t => t.toList.head?.any fun d => !p d) = true) :
    keyword? before (c :: cs) = none := by
  rw [keyword?, Option.map_eq_none_iff, List.find?_eq_none]
  intro t ht
  rw [isPrefixOf_other hc (List.all_eq_true.mp h t ht)]
  nofun

theorem string?_other (h : (p '"' || p '\'') = false) : string? (c :: cs) = none := by
  have h1 : c ≠ '"' := by
    rintro rfl
    simp [hc] at h
  have h2 : c ≠ '\'' := by
    rintro rfl
    simp [hc] at h
  simp [string?, enclosed?, h1, h2]

theorem typeHint?_other (h : p ':' = false) : typeHint? (c :: cs) = none := by
  unfold typeHint?
  split
  · rename_i e
    cases e
    rw [hc] at h
    cases h
  · rfl

theorem symbol?_other (h : (symbols.any p) = false) : symbol? (c :: cs) = none := by
  have hn : symbols.contains c = false := by
    rw [Bool.eq_false_iff]
    intro hm
    rw [List.any_eq_false] at h
    exact h c (List.contains_iff_mem.mp hm) hc
  simp only [symbol?, hn]
  rfl

end

theorem number?_other (h : isDigit c = false) (cs : List Char) : number? (c :: cs) = none := by
  simp [number?, h]

theorem ident?_other (h : isNameStart c = false) (cs : List Char) : ident? (c :: cs) = none := by
  simp [ident?, h]

theorem lexeme?_blank (h : isBlank c = true) (before : Option Char) (cs : List Char) :
    lexeme? before (c :: cs) = none := by
  rw [lexeme?, literal?_other h (by decide), literal?_other h (by decide), literal?_other h (by decide),
    string?_other h (by decide), typeHint?_other h (by decide), number?_other (isDigit_blank h),
    keyword?_other h before (by decide), ident?_other (isNameStart_blank h),
    symbol?_other h (by decide)]
  rfl

/-! ## operators and punctuation -/

/-- a text without blanks does not reach into what follows -/
theorem isPrefixOf_stops {u : List Char} (hu : ∀ c ∈ u, isBlank c = false) (hr : Stops r) :
    u.isPrefixOf (x ++ r) = u.isPrefixOf x := by
  induction x generalizing u with
  | nil =>
    cases u with
    | nil => rfl
    | cons a u =>
      cases r with
      | nil => rfl
      | cons c r =>
        have hn : a ≠ c := (ne_of_blank (stops_cons.mp hr) (hu a (List.mem_cons_self ..))).symm
        simp [List.isPrefixOf, hn]
  | cons b x ih =>
    cases u with
    | nil => rfl
    | cons a u =>
      rw [List.cons_append, List.isPrefixOf_cons_cons, List.isPrefixOf_cons_cons,
        ih fun c hc => hu c (List.mem_cons_of_mem a hc)]

theorem literal?_stops {texts : List String} (h : (texts.all fun t => t.toList.all (!isBlank ·)) = true)
    (hr : Stops r) : literal? texts (x ++ r) = literal? texts x := by
  have hp : ∀ t ∈ texts, t.toList.isPrefixOf (x ++ r) = t.toList.isPrefixOf x := by
    intro t ht
    refine isPrefixOf_stops (fun c hc => ?_) hr
    simpa using List.all_eq_true.mp (List.all_eq_true.mp h t ht) c hc
  rw [literal?, literal?, List.find?_congr hp]

def operator? (cs : List Char) : Option (Lexeme × Nat) :=
  lexemeOf (.token .augAssign) (literal? augAssigns cs)
    <|> lexemeOf (.token .compare) (literal? comparisons cs)
    <|> lexemeOf (.token .op) (literal? operators cs)

theorem lexeme?_operator {l : Lexeme × Nat} (h : operator? x = some l) (hr : Stops r)
    (before : Option Char) : lexeme? before (x ++ r) = some l := by
  have ho : lexeme? before (x ++ r) = (operator? (x ++ r) <|>
      (lexemeOf (.token .string) (string? (x ++ r))
        <|> lexemeOf .typeHint (typeHint? (x ++ r))
        <|> lexemeOf (.token .number) (number? (x ++ r))
        <|> lexemeOf (.token .keyword) (keyword? before (x ++ r))
        <|> lexemeOf (.token .ident) (ident? (x ++ r))
        <|> lexemeOf (.token .symbol) (symbol? (x ++ r)))) := by
    unfold lexeme? operator?
    cases lexemeOf (.token .augAssign) (literal? augAssigns (x ++ r)) with
    | some _ => rfl
    | none => cases lexemeOf (.token .compare) (literal? comparisons (x ++ r)) <;> rfl
  have hs : operator? (x ++ r) = operator? x := by
    unfold operator?
    rw [literal?_stops (by decide) hr, literal?_stops (by decide) hr, literal?_stops (by decide) hr]
  rw [ho, hs, h]
  rfl

theorem typeHint?_stops (hr : Stops r) : typeHint? (c :: r) = none := by
  unfold typeHint?
  split
  · rename_i e
    cases e
    exact absurd (stops_cons.mp hr) (by decide)
  · rfl

theorem lexeme?_symbol (h : c ∈ symbols) (ht : typeHint? (c :: r) = none)
    (before : Option Char) : lexeme? before (c :: r) = some (.token .symbol, 1) := by
  have hc : symbols.contains c = true := List.contains_iff_mem.mpr h
  have hd : isDigit c = false := by
    have hall : symbols.any isDigit = false := by decide
    simpa using List.any_eq_false.mp hall c h
  have hn : isNameStart c = false := by
    have hall : symbols.any isNameStart = false := by decide
    simpa using List.any_eq_false.mp hall c h
  rw [lexeme?, literal?_other (p := symbols.contains) hc (by decide),
    literal?_other (p := symbols.contains) hc (by decide),
    literal?_other (p := symbols.contains) hc (by decide),
    string?_other (p := symbols.contains) hc (by decide), ht, number?_other hd,
    keyword?_other (p := symbols.contains) hc before (by decide), ident?_other hn, symbol?, if_pos hc]
  rfl

/-! ## numbers and words -/

theorem lexeme?_number (hx : x ≠ []) (h : ∀ c ∈ x, isDigit c = true)
    (hr : ∀ c ∈ r.head?, isDigit c = false) (before : Option Char) :
    lexeme? before (x ++ r) = some (.token .number, x.length) := by
  have hn : number? (x ++ r) = some x.length := by
    rw [number?, takeWhile_run h hr]
    cases x with
    | nil => exact absurd rfl hx
    | cons c x => rfl
  obtain ⟨c, x, rfl⟩ := List.exists_cons_of_ne_nil hx
  have hc : isDigit c = true := h c (List.mem_cons_self ..)
  rw [List.cons_append] at hn ⊢
  rw [lexeme?, literal?_other hc (by decide), literal?_other hc (by decide),
    literal?_other hc (by decide), string?_other hc (by decide), typeHint?_other hc (by decide), hn]
  rfl

theorem forall_nameStart {p : Char → Bool}
    (h : ((List.range 128).all fun n => !isNameStart (Char.ofNat n) || p (Char.ofNat n)) = true)
    (hc : isNameStart c = true) : p c = true := by
  have hm : c.toNat ∈ List.range 128 := by
    have hr : ((decide ('A'.val ≤ c.val ∧ c.val ≤ 'Z'.val) ||
        (decide ('a'.val ≤ c.val) && decide (c.val ≤ 'z'.val))) || c == '_') = true := hc
    simp only [Bool.or_eq_true, Bool.and_eq_true, decide_eq_true_eq, beq_iff_eq] at hr
    rw [List.mem_range]
    rcases hr with (⟨-, h⟩ | ⟨-, h⟩) | rfl
    · exact Nat.lt_of_le_of_lt h (by decide)
    · exact Nat.lt_of_le_of_lt h (by decide)
    · decide
  have hp := List.all_eq_true.mp h _ hm
  rw [Char.ofNat_toNat, hc] at hp
  simpa using hp

theorem isDigit_nameStart (h : isNameStart c = true) : isDigit c = false := by
  have hd : (!isDigit c) = true := forall_nameStart (p := fun c => !isDigit c) (by decide +kernel) h
  simpa using hd

theorem isWord_nameStart (h : isNameStart c = true) : isWord c = true :=
  forall_nameStart (by decide +kernel) h

/-- a word that stands at the head of a word and ends where a word ends is that word -/
theorem isPrefixOf_word {u w : List Char} (hu : ∀ c ∈ u, isWord c = true) (hw : ∀ c ∈ w, isWord c = true)
    (hr : Stops r) : (u.isPrefixOf (w ++ r) && endsWord ((w ++ r).drop u.length)) = (u == w) := by
  induction u generalizing w with
  | nil =>
    cases w with
    | nil =>
      cases r with
      | nil => rfl
      | cons c r => simp [endsWord, isWord_blank (stops_cons.mp hr)]
    | cons d w => simp [endsWord, hw d (List.mem_cons_self ..)]
  | cons a u ih =>
    have ha := hu a (List.mem_cons_self ..)
    cases w with
    | nil =>
      cases r with
      | nil => rfl
      | cons c r =>
        have hn : a ≠ c := by
          rintro rfl
          rw [isWord_blank (stops_cons.mp hr)] at ha
          cases ha
        simp [List.isPrefixOf, hn]
    | cons d w =>
      rw [List.cons_append, List.isPrefixOf_cons_cons, List.length_cons, List.drop_succ_cons,
        Bool.and_assoc, ih (fun c hc => hu c (List.mem_cons_of_mem a hc))
          fun c hc => hw c (List.mem_cons_of_mem d hc)]
      rfl

theorem keyword?_word {s : String} (hs : ∀ c ∈ s.toList, isWord c = true) (hr : Stops r) :
    keyword? none (s.toList ++ r) = if s ∈ keywords then some s.length else none := by
  have hp : ∀ k ∈ keywords, (k.toList.isPrefixOf (s.toList ++ r) &&
      endsWord ((s.toList ++ r).drop k.length) && (k == "def" || beginsWord none)) = (k == s) := by
    intro k hk
    have hall : (keywords.all fun k => k.toList.all isWord) = true := by decide
    have hw : ∀ c ∈ k.toList, isWord c = true :=
      fun c hc => List.all_eq_true.mp (List.all_eq_true.mp hall k hk) c hc
    rw [← String.length_toList, isPrefixOf_word hw hs hr, beginsWord, Bool.or_true, Bool.and_true,
      Bool.eq_iff_iff, beq_iff_eq, beq_iff_eq, String.toList_inj]
  rw [keyword?, List.find?_congr hp]
  split
  · rename_i hk
    cases hf : keywords.find? (· == s) with
    | none => exact absurd (List.find?_eq_none.mp hf s hk) (by simp)
    | some k =>
      have he : (k == s) = true := List.find?_some (p := (· == s)) hf
      rw [eq_of_beq he, Option.map_some]
  · rename_i hk
    rw [Option.map_eq_none_iff, List.find?_eq_none]
    intro k hm he
    exact hk (eq_of_beq he ▸ hm)

/-- is a text a letter or underscore with word characters after it? -/
def isName : List Char → Bool
  | [] => false
  | c :: cs => isNameStart c && cs.all isWord

theorem isWord_of_isName (h : isName x = true) : ∀ c ∈ x, isWord c = true := by
  cases x with
  | nil => nofun
  | cons c cs =>
    rw [isName, Bool.and_eq_true, List.all_eq_true] at h
    exact List.forall_mem_cons.mpr ⟨isWord_nameStart h.1, h.2⟩

theorem isName_keyword : ∀ s ∈ keywords, isName s.toList = true := by decide

theorem lexeme?_name {s : String} (h : isName s.toList = true) (hr : Stops r) : lexeme? none (s.toList ++ r) =
      some (.token (if s ∈ keywords then .keyword else .ident), s.toList.length) := by
  obtain ⟨c, cs, hs⟩ : ∃ c cs, s.toList = c :: cs := by
    cases hs : s.toList with
    | nil => simp [hs, isName] at h
    | cons c cs => exact ⟨c, cs, rfl⟩
  have hk := keyword?_word (isWord_of_isName h) hr
  rw [hs, isName, Bool.and_eq_true, List.all_eq_true] at h
  obtain ⟨hc, hcs⟩ := h
  have hi : ident? (s.toList ++ r) = some s.toList.length := by
    rw [hs, List.cons_append, ident?, if_pos hc, takeWhile_run hcs fun c h => isWord_blank (hr c h),
      List.length_cons]
  rw [← String.length_toList] at hk
  rw [hs, List.cons_append] at hk hi ⊢
  rw [lexeme?, literal?_other hc (by decide), literal?_other hc (by decide),
    literal?_other hc (by decide), string?_other hc (by decide), typeHint?_other hc (by decide),
    number?_other (isDigit_nameStart hc), hk, hi]
  split <;> rfl

/-! ## strings and annotations -/

theorem takeWhile_until {d : Char} (h : d ∉ x) (r : List Char) : (x ++ d :: r).takeWhile (· != d) = x := by
  have hx : ∀ c ∈ x, (c != d) = true := by
    intro c hc
    rw [bne_iff_ne]
    rintro rfl
    exact h hc
  rw [List.takeWhile_append_of_pos hx, List.takeWhile_cons_of_neg (by simp), List.append_nil]

theorem lexeme?_string (h : '"' ∉ x) (r : List Char) (before : Option Char) :
    lexeme? before ('"' :: x ++ '"' :: r) = some (.token .string, x.length + 2) := by
  have hs : string? ('"' :: x ++ '"' :: r) = some (x.length + 2) := by
    rw [string?, List.cons_append, enclosed?, if_pos (by simp), takeWhile_until h]
  have hq : ('"' == '"') = true := rfl
  rw [List.cons_append] at hs ⊢
  rw [lexeme?, literal?_other (p := (· == '"')) hq (by decide),
    literal?_other (p := (· == '"')) hq (by decide), literal?_other (p := (· == '"')) hq (by decide), hs]
  rfl

def hintText (blanks inner : List Char) : List Char := ':' :: ':' :: blanks ++ '<' :: inner ++ ['>']

theorem lexeme?_hint {blanks inner : List Char} (hb : ∀ c ∈ blanks, isBlank c = true) (hi : inner ≠ [])
    (hn : '>' ∉ inner) (r : List Char) (before : Option Char) :
    lexeme? before (hintText blanks inner ++ r) =
      some (.typeHint, (hintText blanks inner).length) := by
  have hs : hintText blanks inner ++ r = ':' :: ':' :: (blanks ++ '<' :: (inner ++ '>' :: r)) := by
    simp [hintText]
  have htb : (blanks ++ '<' :: (inner ++ '>' :: r)).takeWhile isBlank = blanks := by
    rw [List.takeWhile_append_of_pos hb, List.takeWhile_cons_of_neg (by decide), List.append_nil]
  have hl : (inner.length = 0 || inner.length = (inner ++ '>' :: r).length) = false := by
    simp [hi]
  have hh : typeHint? (':' :: ':' :: (blanks ++ '<' :: (inner ++ '>' :: r))) =
      some (hintText blanks inner).length := by
    simp only [typeHint?, htb, List.drop_left, takeWhile_until hn, hl]
    simp [hintText]
    omega
  have hc : (':' == ':') = true := rfl
  rw [hs, lexeme?, literal?_other (p := (· == ':')) hc (by decide),
    literal?_other (p := (· == ':')) hc (by decide), literal?_other (p := (· == ':')) hc (by decide),
    string?_other (p := (· == ':')) hc (by decide), hh]
  rfl

/-! ## canonical tokens -/

/-- a token that source text gives: its text is one of its kind, and a string has no quote marks and no
marks that open comments -/
def Canonical (t : Token) : Prop :=
  match t.kind with
  | .augAssign => t.text ∈ augAssigns
  | .compare => t.text ∈ comparisons
  | .op => t.text ∈ operators
  | .string => '"' ∉ t.text.toList ∧ ¬ ['/', '/'] <:+: t.text.toList ∧ ¬ ['/', '*'] <:+: t.text.toList
  | .number => t.text.toList ≠ [] ∧ t.text.toList.all isDigit = true
  | .keyword => t.text ∈ keywords
  | .ident => isName t.text.toList = true ∧ t.text ∉ keywords
  | .symbol => t.text ∈ symbols.map String.singleton
  | .other _ => False

instance : (t : Token) → Decidable t.Canonical
  | ⟨.augAssign, text⟩ => inferInstanceAs (Decidable (text ∈ augAssigns))
  | ⟨.compare, text⟩ => inferInstanceAs (Decidable (text ∈ comparisons))
  | ⟨.op, text⟩ => inferInstanceAs (Decidable (text ∈ operators))
  | ⟨.string, text⟩ => inferInstanceAs (Decidable ('"' ∉ text.toList ∧
      ¬ ['/', '/'] <:+: text.toList ∧ ¬ ['/', '*'] <:+: text.toList))
  | ⟨.number, text⟩ => inferInstanceAs (Decidable (text.toList ≠ [] ∧ text.toList.all isDigit = true))
  | ⟨.keyword, text⟩ => inferInstanceAs (Decidable (text ∈ keywords))
  | ⟨.ident, text⟩ => inferInstanceAs (Decidable (isName text.toList = true ∧ text ∉ keywords))
  | ⟨.symbol, text⟩ => inferInstanceAs (Decidable (text ∈ symbols.map String.singleton))
  | ⟨.other _, _⟩ => inferInstanceAs (Decidable False)

/-- how a token is written: a string stands between double quote marks -/
def spelled (t : Token) : List Char :=
  match t.kind with
  | .string => '"' :: t.text.toList ++ ['"']
  | _ => t.text.toList

/-- a text that is not empty, has no quote marks and no marks that open comments -/
structure Plain (x : List Char) : Prop where
  nonempty : x ≠ []
  unquoted : '\'' ∉ x ∧ '"' ∉ x
  noLine : ¬ ['/', '/'] <:+: x
  noBlock : ¬ ['/', '*'] <:+: x

/-- a text of characters of a class without quote marks and slashes -/
theorem plain_of_class {p : Char → Bool} (hx : x ≠ []) (h : ∀ c ∈ x, p c = true)
    (hp : (p '\'' || p '"' || p '/') = false) : Plain x := by
  simp only [Bool.or_eq_false_iff] at hp
  obtain ⟨⟨hs, hd⟩, hm⟩ := hp
  have hn : ∀ {c : Char}, p c = false → c ∉ x := by
    intro c hc hx
    rw [h c hx] at hc
    cases hc
  have hi : ∀ b, ¬ ['/', b] <:+: x := fun b hb => hn hm (hb.subset (List.mem_cons_self ..))
  exact ⟨hx, ⟨hn hs, hn hd⟩, hi _, hi _⟩

theorem plain_name (h : isName x = true) : Plain x := by
  refine plain_of_class ?_ (isWord_of_isName h) (by decide)
  rintro rfl
  cases h

/-- a canonical token that is not a string is written as its text, which is plain -/
theorem spelled_plain {t : Token} (h : t.Canonical) (hk : t.kind ≠ .string) :
    t.spelled = t.text.toList ∧ Plain t.text.toList := by
  have hall : ∀ s ∈ augAssigns ++ comparisons ++ operators ++ symbols.map String.singleton,
      s.toList ≠ [] ∧ ('\'' ∉ s.toList ∧ '"' ∉ s.toList) ∧ ¬ ['/', '/'] <:+: s.toList ∧
        ¬ ['/', '*'] <:+: s.toList := by decide
  have hfixed : ∀ s ∈ augAssigns ++ comparisons ++ operators ++ symbols.map String.singleton,
      Plain s.toList := by
    intro s hs
    obtain ⟨hn, hq, hl, hb⟩ := hall s hs
    exact ⟨hn, hq, hl, hb⟩
  obtain ⟨kind, text⟩ := t
  cases kind with
  | augAssign => exact ⟨rfl, hfixed text (by simp [show text ∈ augAssigns from h])⟩
  | compare => exact ⟨rfl, hfixed text (by simp [show text ∈ comparisons from h])⟩
  | op => exact ⟨rfl, hfixed text (by simp [show text ∈ operators from h])⟩
  | string => exact absurd rfl hk
  | number => exact ⟨rfl, plain_of_class h.1 (List.all_eq_true.mp h.2) (by decide)⟩
  | keyword => exact ⟨rfl, plain_name (isName_keyword text h)⟩
  | ident => exact ⟨rfl, plain_name h.1⟩
  | symbol => exact ⟨rfl, hfixed text (List.mem_append_right _ h)⟩
  | other label => exact h.elim

/-- a string is written between quote marks, and its text is free of them and of marks that open
comments -/
theorem spelled_string {t : Token} (h : t.Canonical) (hk : t.kind = .string) :
    t.spelled = '"' :: t.text.toList ++ ['"'] ∧ '"' ∉ t.text.toList ∧
      ¬ ['/', '/'] <:+: t.text.toList ∧ ¬ ['/', '*'] <:+: t.text.toList := by
  obtain ⟨kind, text⟩ := t
  cases hk
  exact ⟨rfl, h⟩

theorem lexeme?_spelled {t : Token} (h : t.Canonical) (hr : Stops r) :
    lexeme? none (t.spelled ++ r) = some (.token t.kind, t.spelled.length) := by
  obtain ⟨kind, text⟩ := t
  cases kind with
  | augAssign =>
    have hall : ∀ s ∈ augAssigns, operator? s.toList = some (.token .augAssign, s.toList.length) := by
      decide
    exact lexeme?_operator (hall text h) hr none
  | compare =>
    have hall : ∀ s ∈ comparisons, operator? s.toList = some (.token .compare, s.toList.length) := by
      decide
    exact lexeme?_operator (hall text h) hr none
  | op =>
    have hall : ∀ s ∈ operators, operator? s.toList = some (.token .op, s.toList.length) := by decide
    exact lexeme?_operator (hall text h) hr none
  | string =>
    have hs : spelled ⟨.string, text⟩ ++ r = '"' :: text.toList ++ '"' :: r := by simp [spelled]
    rw [hs, lexeme?_string h.1 r none]
    simp [spelled]
  | number => exact lexeme?_number h.1 (List.all_eq_true.mp h.2) (fun c hc => isDigit_blank (hr c hc)) none
  | keyword =>
    have hk : text ∈ keywords := h
    have hn := lexeme?_name (isName_keyword text hk) hr
    rwa [if_pos hk] at hn
  | ident =>
    have hn := lexeme?_name h.1 hr
    rwa [if_neg h.2] at hn
  | symbol =>
    obtain ⟨c, hc, he⟩ := List.mem_map.mp (show text ∈ symbols.map String.singleton from h)
    have hs : spelled ⟨.symbol, text⟩ = [c] := by
      show text.toList = [c]
      rw [← he, String.toList_singleton]
    rw [hs]
    exact lexeme?_symbol hc (typeHint?_stops hr) none
  | other label => exact h.elim

end BraceScript.Token
