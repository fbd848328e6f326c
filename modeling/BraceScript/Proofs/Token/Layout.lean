import BraceScript.Proofs.Token.Scanning
import Mathlib.Data.List.Chain

/-!
# Layout

Source text is tokens with blanks, comments and annotations between them. Written out with any layout, a
list of tokens is read back, as long as no comment stands right after a block comment.

* `Piece`, `Separator`   what may stand between two tokens
* `Apart`                no comment stands right after a block comment
* `Source`               tokens with the separators between them
* `Collision`            the first comment of a source that stands right after a block comment
* `tokenize_source`      the tokens of a source
-/

namespace BraceScript

open Text

open Token

/-! ## pieces of layout -/

/-- what may stand between two tokens: a blank, a comment up to the end of the line, a comment between
marks or an annotation -/
inductive Piece
  | blank (c : Char) (h : isBlank c = true)
  | line (content : List Char) (h : '\n' ∉ content)
  | block (content : List Char) (hc : ¬ ['*', '/'] <:+: content) (hl : ¬ ['/', '/'] <:+: content)
  | hint (blanks inner : List Char) (hb : blanks.all isBlank = true) (hi : inner ≠ [])
    (hn : '>' ∉ inner) (hl : ¬ ['/', '/'] <:+: inner) (hc : ¬ ['/', '*'] <:+: inner)

namespace Piece

def text : Piece → List Char
  | blank c _ => [c]
  | line content _ => '/' :: '/' :: content ++ ['\n']
  | block content _ _ => '/' :: '*' :: content ++ ['*', '/']
  | hint blanks inner .. => hintText blanks inner

def isBlock : Piece → Bool
  | block .. => true
  | _ => false

def isComment : Piece → Bool
  | line .. => true
  | block .. => true
  | _ => false

theorem isComment_of_isBlock {p : Piece} (h : p.isBlock = true) : p.isComment = true := by
  cases p with
  | block => rfl
  | _ => cases h

/-- a piece that is no comment does not begin with a slash -/
theorem head_text {p : Piece} (h : p.isComment = false) (r : List Char) :
    (p.text ++ r).head? ≠ some '/' := by
  cases p with
  | blank c hc => simpa [text] using ne_of_blank hc (by decide)
  | line => cases h
  | block => cases h
  | hint => simp [text, hintText]

/-- an annotation stays in the text -/
theorem cutComments_hint {blanks inner : List Char} (hb : ∀ c ∈ blanks, isBlank c = true)
    (hl : ¬ ['/', '/'] <:+: inner) (hc : ¬ ['/', '*'] <:+: inner) (r : List Char) :
    cutComments (hintText blanks inner ++ r) = hintText blanks inner ++ cutComments r := by
  have hn : '/' ∉ blanks := fun hm => absurd (hb _ hm) (by decide)
  have hm : ∀ {b : Char} {r : List Char}, ¬ ['/', b] <:+: inner → b ≠ '>' →
      ¬ Marked '/' b (hintText blanks inner) r := by
    intro b r hi hne
    have hx := not_marked_of_free (r := '>' :: r) hi (by simpa using Ne.symm hne)
    have hs : hintText blanks inner = ':' :: ':' :: blanks ++ ('<' :: inner ++ ['>']) := by
      simp [hintText]
    have hk : ¬ Marked '/' b blanks ('<' :: inner ++ ['>'] ++ r) := not_marked_of_notMem hn
    rw [hs, marked_append, marked_append]
    simp only [List.cons_append, List.nil_append, List.append_assoc] at hk
    simp [Marked, hx, hk]
  exact cutComments_plain (hm hl (by decide)) (hm hc (by decide))

/-- a piece gives no token, unless it is a block comment with a slash right after it -/
theorem tokensOf_text (p : Piece) {r : List Char} (h : p.isBlock = true → r.head? ≠ some '/') :
    tokensOf (p.text ++ r) = tokensOf r := by
  have hblank : ∀ {c : Char}, isBlank c = true → ∀ r, tokensOf (c :: r) = tokensOf r := by
    intro c hc r
    have hn : '/' ∉ [c] := by simpa using Ne.symm (ne_of_blank hc (by decide))
    have he := cutComments_noSlash hn r
    rw [List.singleton_append, List.singleton_append] at he
    rw [tokensOf, he, scan_blank hc, tokensOf]
  cases p with
  | blank c hc => exact hblank hc r
  | line content hl =>
    have he : tokensOf ('/' :: '/' :: content ++ '\n' :: r) = tokensOf r := by
      rw [tokensOf, cutComments_line hl, scan_blank rfl, tokensOf]
    rw [← he]
    simp [text]
  | block content hc hl =>
    have he : tokensOf ('/' :: '*' :: content ++ '*' :: '/' :: r) = tokensOf r := by
      rw [tokensOf, cutComments_block hl hc (h rfl), tokensOf]
    rw [← he]
    simp [text]
  | hint blanks inner hb hi hn hl hc =>
    have hb := List.all_eq_true.mp hb
    rw [text, tokensOf, cutComments_hint hb hl hc, scan_hint hb hi hn, tokensOf]

/-- a comment right after a block comment takes the last slash of the block comment and the rest of the line
along -/
theorem tokensOf_merged {p q : Piece} (hp : p.isBlock = true) (hq : q.isComment = true) (r : List Char) :
    tokensOf (p.text ++ (q.text ++ r)) =
      tokensOf (p.text.dropLast ++ (q.text ++ r).dropWhile (· != '\n')) := by
  obtain ⟨cs, hs⟩ : ∃ cs, q.text = '/' :: cs := by
    cases q with
    | line content h => exact ⟨_, rfl⟩
    | block content hc hl => exact ⟨_, rfl⟩
    | _ => cases hq
  cases p with
  | block content hc hl =>
    have ht : text (.block content hc hl) = '/' :: '*' :: content ++ ['*'] ++ ['/'] := by simp [text]
    have hm := cutComments_merged hl (cs ++ r)
    have hd : ('/' :: cs ++ r).dropWhile (· != '\n') = (cs ++ r).dropWhile (· != '\n') := rfl
    rw [hs, ht, List.dropLast_concat, hd, tokensOf, tokensOf]
    simp only [List.cons_append, List.append_assoc, List.nil_append] at hm ⊢
    rw [hm]
  | _ => cases hp

end Piece

/-! ## separators -/

def piecesText (ps : List Piece) : List Char := ps.flatMap Piece.text

/-- no comment stands right after a block comment -/
def Apart (ps : List Piece) : Prop := ps.IsChain fun p q => p.isBlock = true → q.isComment = false

instance (ps : List Piece) : Decidable (Apart ps) :=
  inferInstanceAs (Decidable (ps.IsChain fun p q => p.isBlock = true → q.isComment = false))

theorem tokensOf_pieces {ps : List Piece} (h : Apart ps) {r : List Char}
    (hr : ∀ p ∈ ps.getLast?, p.isBlock = true → r.head? ≠ some '/') :
    tokensOf (piecesText ps ++ r) = tokensOf r := by
  induction ps with
  | nil => rfl
  | cons p ps ih =>
    rw [piecesText, List.flatMap_cons, List.append_assoc]
    cases ps with
    | nil => exact p.tokensOf_text (hr p rfl)
    | cons q ps =>
      obtain ⟨hp, hq⟩ := List.isChain_cons_cons.mp h
      have hs : ∀ s ∈ (q :: ps).getLast?, s.isBlock = true → r.head? ≠ some '/' := by
        intro s hs
        exact hr s (by rwa [List.getLast?_cons_cons])
      rw [p.tokensOf_text fun hb => ?_]
      · exact ih hq hs
      · rw [List.flatMap_cons, List.append_assoc]
        exact Piece.head_text (hp hb) _

/-- pieces whose text begins and ends with a blank -/
structure Separator where
  pieces : List Piece
  opens : ∃ c cs, isBlank c = true ∧ piecesText pieces = c :: cs
  ends : ∃ cs c, isBlank c = true ∧ piecesText pieces = cs ++ [c]

namespace Separator

def text (s : Separator) : List Char := piecesText s.pieces

def Clean (s : Separator) : Prop := Apart s.pieces

instance (s : Separator) : Decidable s.Clean := inferInstanceAs (Decidable (Apart s.pieces))

theorem stops_text (s : Separator) (r : List Char) : Stops (s.text ++ r) := by
  obtain ⟨c, cs, hc, he⟩ := s.opens
  rw [text, he]
  exact stops_cons.mpr hc

theorem last_not_block (s : Separator) : ∀ p ∈ s.pieces.getLast?, p.isBlock = false := by
  intro p hp
  obtain ⟨ps, hs⟩ := List.getLast?_eq_some_iff.mp hp
  obtain ⟨cs, c, hc, he⟩ := s.ends
  cases p with
  | block content hb hl =>
    have ht : Piece.text (.block content hb hl) = '/' :: '*' :: content ++ ['*'] ++ ['/'] := by
      simp [Piece.text]
    have hl : (piecesText s.pieces).getLast? = some '/' := by
      rw [hs, piecesText, List.flatMap_append, List.flatMap_singleton, ht, ← List.append_assoc,
        List.getLast?_concat]
    rw [he, List.getLast?_concat, Option.some.injEq] at hl
    exact absurd (hl ▸ hc) (by decide)
  | _ => rfl

theorem tokensOf_text {s : Separator} (h : s.Clean) (r : List Char) :
    tokensOf (s.text ++ r) = tokensOf r :=
  tokensOf_pieces h fun p hp hb => by
    rw [s.last_not_block p hp] at hb
    cases hb

end Separator

/-! ## sources -/

/-- tokens with a separator after each of them, apart from a last one -/
structure Source where
  body : List (Token × Separator)
  last : Option Token

namespace Source

def tokens (src : Source) : List Token := src.body.map Prod.fst ++ src.last.toList

def bodyText (body : List (Token × Separator)) : List Char :=
  body.flatMap fun p => p.1.spelled ++ p.2.text

def lastText (last : Option Token) : List Char := last.toList.flatMap Token.spelled

def text (src : Source) : List Char := bodyText src.body ++ lastText src.last

/-- no comment stands right after a block comment -/
def Clean (src : Source) : Prop := ∀ p ∈ src.body, p.2.Clean

instance (src : Source) : Decidable src.Clean :=
  inferInstanceAs (Decidable (∀ p ∈ src.body, p.2.Clean))

/-- tokens are read up to the end of a clean separator -/
theorem tokensOf_body {body : List (Token × Separator)} (ht : ∀ p ∈ body, p.1.Canonical)
    (hs : ∀ p ∈ body, p.2.Clean) (r : List Char) :
    tokensOf (bodyText body ++ r) = body.map Prod.fst ++ tokensOf r := by
  induction body with
  | nil => rfl
  | cons p body ih =>
    obtain ⟨htp, htb⟩ := List.forall_mem_cons.mp ht
    obtain ⟨hsp, hsb⟩ := List.forall_mem_cons.mp hs
    rw [bodyText, List.flatMap_cons, List.append_assoc, List.append_assoc,
      tokensOf_spelled htp (p.2.stops_text _), Separator.tokensOf_text hsp, List.map_cons,
      List.cons_append]
    exact congrArg _ (ih htb hsb)

theorem tokensOf_last {last : Option Token} (h : ∀ t ∈ last, t.Canonical) :
    tokensOf (lastText last) = last.toList := by
  cases last with
  | none => rfl
  | some t =>
    have hr := tokensOf_spelled (h t rfl) stops_nil
    rw [List.append_nil] at hr
    simp only [lastText, Option.toList_some, List.flatMap_singleton]
    exact hr

/-! ## collisions -/

/-- the first comment of a source that stands right after a block comment -/
structure Collision (src : Source) where
  /-- the tokens before, with their separators -/
  early : List (Token × Separator)
  /-- the token before the separator in which the comment stands -/
  token : Token
  sep : Separator
  late : List (Token × Separator)
  before : List Piece
  block : Piece
  comment : Piece
  after : List Piece
  body_eq : src.body = early ++ (token, sep) :: late
  early_clean : ∀ p ∈ early, p.2.Clean
  pieces_eq : sep.pieces = before ++ block :: comment :: after
  before_apart : Apart (before ++ [block])
  isBlock : block.isBlock = true
  isComment : comment.isComment = true

namespace Collision

variable {src : Source} (k : Collision src)

/-- the tokens up to the collision -/
def found : List Token := k.early.map Prod.fst ++ [k.token]

/-- the tokens after the collision -/
def missing : List Token := k.late.map Prod.fst ++ src.last.toList

/-- the text from the comment on -/
def following : List Char :=
  piecesText (k.comment :: k.after) ++ bodyText k.late ++ lastText src.last

/-- what is left to read: the block comment without its last slash, and the text from the end of the
line on -/
def left : List Char := k.block.text.dropLast ++ k.following.dropWhile (· != '\n')

theorem tokens_eq : src.tokens = k.found ++ k.missing := by
  rw [tokens, k.body_eq, found, missing]
  simp

theorem sep_text (r : List Char) : k.sep.text ++ r =
    piecesText k.before ++ (k.block.text ++ (piecesText (k.comment :: k.after) ++ r)) := by
  rw [Separator.text, k.pieces_eq, piecesText, List.flatMap_append, List.flatMap_cons]
  simp [piecesText]

theorem text_eq : src.text = bodyText k.early ++
    (k.token.spelled ++ (k.sep.text ++ (bodyText k.late ++ lastText src.last))) := by
  rw [text, k.body_eq, bodyText, List.flatMap_append, List.flatMap_cons]
  simp [bodyText]

/-- a collision loses the last slash of the block comment and the rest of the line -/
theorem tokensOf_text (hc : ∀ t ∈ src.tokens, t.Canonical) :
    tokensOf src.text = k.found ++ tokensOf k.left := by
  have hf : ∀ t ∈ k.found, t.Canonical := fun t ht =>
    hc t (by rw [k.tokens_eq]; exact List.mem_append_left _ ht)
  have he : ∀ p ∈ k.early, p.1.Canonical := fun p hp =>
    hf p.1 (List.mem_append_left _ (List.mem_map_of_mem hp))
  have ht : k.token.Canonical := hf _ (by simp [found])
  obtain ⟨hb, -, hl⟩ := List.isChain_append.mp k.before_apart
  -- a block comment before this one would be a collision too
  have hlast : ∀ p ∈ k.before.getLast?, p.isBlock = false := by
    intro p hp
    rw [Bool.eq_false_iff]
    intro hpb
    have hn := hl p hp k.block rfl hpb
    rw [Piece.isComment_of_isBlock k.isBlock] at hn
    cases hn
  have hp : ∀ r, tokensOf (piecesText k.before ++ r) = tokensOf r := fun r =>
    tokensOf_pieces hb fun p hp hpb => by
      rw [hlast p hp] at hpb
      cases hpb
  have hm := Piece.tokensOf_merged k.isBlock k.isComment
    (piecesText k.after ++ (bodyText k.late ++ lastText src.last))
  rw [k.text_eq, tokensOf_body he k.early_clean, tokensOf_spelled ht (k.sep.stops_text _), k.sep_text,
    hp, found, List.append_assoc, List.singleton_append, left, following, piecesText, List.flatMap_cons]
  simp only [List.append_assoc]
  exact congrArg _ (congrArg _ hm)

end Collision

/-- pieces that do not stand apart have a first comment right after a block comment -/
theorem exists_merged {ps : List Piece} (h : ¬ Apart ps) :
    ∃ before block comment after, ps = before ++ block :: comment :: after ∧ Apart (before ++ [block]) ∧
      block.isBlock = true ∧ comment.isComment = true := by
  induction ps with
  | nil => exact absurd .nil h
  | cons p ps ih =>
    cases ps with
    | nil => exact absurd (.singleton p) h
    | cons q ps =>
      by_cases hpq : p.isBlock = true → q.isComment = false
      · have hq : ¬ Apart (q :: ps) := fun hq => h (.cons_cons hpq hq)
        obtain ⟨before, block, comment, after, he, hb, hblock, hcomment⟩ := ih hq
        refine ⟨p :: before, block, comment, after, by rw [he, List.cons_append], ?_, hblock, hcomment⟩
        cases before with
        | nil =>
          cases he
          exact .cons_cons hpq (.singleton _)
        | cons b before =>
          cases he
          exact .cons_cons hpq hb
      · rw [Classical.not_imp, Bool.not_eq_false] at hpq
        exact ⟨[], p, q, ps, rfl, .singleton p, hpq.1, hpq.2⟩

/-- a source that is not clean has a first collision -/
theorem exists_collision {src : Source} (h : ¬ src.Clean) : Nonempty (Collision src) := by
  have hfirst : ∀ body : List (Token × Separator), ¬ (∀ p ∈ body, p.2.Clean) →
      ∃ early t s late, body = early ++ (t, s) :: late ∧ (∀ p ∈ early, p.2.Clean) ∧ ¬ s.Clean := by
    intro body
    induction body with
    | nil => exact fun h => absurd (fun _ hp => nomatch hp) h
    | cons p body ih =>
      intro h
      by_cases hp : p.2.Clean
      · have hb : ¬ ∀ p ∈ body, p.2.Clean := fun hb => h (List.forall_mem_cons.mpr ⟨hp, hb⟩)
        obtain ⟨early, t, s, late, he, hc, hs⟩ := ih hb
        exact ⟨p :: early, t, s, late, by rw [he, List.cons_append],
          List.forall_mem_cons.mpr ⟨hp, hc⟩, hs⟩
      · exact ⟨[], p.1, p.2, body, rfl, nofun, hp⟩
  obtain ⟨early, t, s, late, hb, hc, hs⟩ := hfirst src.body h
  obtain ⟨before, block, comment, after, hp, ha, hblock, hcomment⟩ := exists_merged hs
  exact ⟨⟨early, t, s, late, before, block, comment, after, hb, hc, hp, ha, hblock, hcomment⟩⟩

end Source

/-- **The tokens of a source.** Canonical tokens with any layout between them are read back if no comment
stands right after a block comment. Otherwise the first such comment loses the last slash of the block
comment and the rest of its line: the tokens before it are read, and then those of what is left. -/
theorem tokenize_source (src : Source) (hc : ∀ t ∈ src.tokens, t.Canonical) :
    (src.Clean → tokenize (String.ofList src.text) = src.tokens) ∧
      (¬ src.Clean → ∃ k : src.Collision, src.tokens = k.found ++ k.missing ∧
        tokenize (String.ofList src.text) = k.found ++ tokenize (String.ofList k.left) ∧
        (tokenize (String.ofList src.text) = src.tokens ↔
          tokenize (String.ofList k.left) = k.missing)) := by
  have ht : ∀ cs, tokenize (String.ofList cs) = tokensOf cs := fun cs => by
    rw [tokenize, String.toList_ofList, tokensOf]
  simp only [ht]
  constructor
  · intro h
    have hb : ∀ p ∈ src.body, p.1.Canonical := fun p hp =>
      hc p.1 (List.mem_append_left _ (List.mem_map_of_mem hp))
    have hl : ∀ t ∈ src.last, t.Canonical := fun t hl =>
      hc t (List.mem_append_right _ (Option.mem_toList.mpr hl))
    rw [Source.text, Source.tokensOf_body hb h, Source.tokensOf_last hl, Source.tokens]
  · intro h
    obtain ⟨k⟩ := Source.exists_collision h
    have hk := k.tokensOf_text hc
    refine ⟨k, k.tokens_eq, hk, ?_⟩
    rw [hk, k.tokens_eq, List.append_cancel_left_eq]

/-- the source `x /*a*//*b*/ y` -/
def Source.merged : Source where
  body := [(⟨.ident, "x"⟩,
    { pieces := [.blank ' ' rfl, .block ['a'] (by decide) (by decide),
        .block ['b'] (by decide) (by decide), .blank ' ' rfl]
      opens := ⟨' ', _, rfl, rfl⟩
      ends := ⟨" /*a*//*b*/".toList, ' ', rfl, rfl⟩ })]
  last := some ⟨.ident, "y"⟩

/-- the source `x ::<int> /*a*/ = // b` with a string on the next line -/
def Source.annotated : Source where
  body := [
    (⟨.ident, "x"⟩,
      { pieces := [.blank ' ' rfl,
          .hint [] ['i', 'n', 't'] (by decide) (by decide) (by decide) (by decide) (by decide),
          .blank ' ' rfl, .block ['a'] (by decide) (by decide), .blank ' ' rfl]
        opens := ⟨' ', _, rfl, rfl⟩
        ends := ⟨" ::<int> /*a*/".toList, ' ', rfl, rfl⟩ }),
    (⟨.op, "="⟩,
      { pieces := [.blank ' ' rfl, .line [' ', 'b'] (by decide)]
        opens := ⟨' ', _, rfl, rfl⟩
        ends := ⟨" // b".toList, '\n', rfl, rfl⟩ })]
  last := some ⟨.string, "it's"⟩

/-- two block comments without a blank between them: the second one is not cut, and the token after it is
lost -/
theorem tokenize_source_merged :
    tokenize (String.ofList Source.annotated.text) = Source.annotated.tokens ∧
      (∃ k : Source.merged.Collision,
        tokenize (String.ofList Source.merged.text) = k.found ++ tokenize (String.ofList k.left)) ∧
      tokenize (String.ofList Source.merged.text) =
        [⟨.ident, "x"⟩, ⟨.op, "/"⟩, ⟨.op, "*"⟩, ⟨.ident, "a"⟩, ⟨.op, "*"⟩] := by
  refine ⟨(tokenize_source Source.annotated (by decide)).1 (by decide), ?_, by decide⟩
  obtain ⟨k, -, hk, -⟩ := (tokenize_source Source.merged (by decide)).2 (by decide)
  exact ⟨k, hk⟩

end BraceScript
