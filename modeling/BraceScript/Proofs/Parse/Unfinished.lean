import BraceScript.Eval.Module
import BraceScript.Proofs.Parse.Brackets
import BraceScript.Proofs.Token.Segments
import BraceScript.Session
import Mathlib.Data.List.Count

/-!
# Programs that are taken for unfinished

Whether a text needs more is guessed from its characters, and a program that can be read has as many opening as
closing brackets among its tokens. What is counted beside them is hidden from the reader: the characters of
comments, of strings, of annotations, the characters that get lost, and the brackets that are loose. These alone
decide whether a program that can be read is taken for unfinished.

* `Segment.hidden`     the characters of a segment that are no part of the program text
* `hidden`             all hidden characters of a source text
* `needsMore_of_parse` a program that can be read needs more exactly if its hidden characters do
-/

namespace BraceScript

open Token

def commentText (cs : List Char) : List Char := cs.diff (cutComments cs)

namespace Token

theorem cutLines_sublist (inside : Bool) (cs : List Char) : (cutLines inside cs).Sublist cs := by
  induction cs generalizing inside with
  | nil => exact List.Sublist.refl _
  | cons c cs ih =>
    rw [cutLines]
    split
    · rename_i hc
      exact hc ▸ (ih false).cons_cons '\n'
    · split
      · exact (ih true).cons c
      · exact (ih false).cons_cons c

theorem cutBlocks_sublist (phase : BlockPhase) (cs : List Char) : (cutBlocks phase cs).Sublist cs := by
  induction cs generalizing phase with
  | nil =>
    cases phase <;> exact List.Sublist.refl _
  | cons c cs ih =>
    cases phase with
    | code =>
      rw [cutBlocks]
      split
      · exact (ih _).cons c
      · exact (ih _).cons_cons c
    | opening => exact (ih _).cons c
    | comment =>
      rw [cutBlocks]
      split
      · exact (ih _).cons c
      · exact (ih _).cons c
    | closing => exact (ih _).cons c

theorem count_cutComments (c : Char) (cs : List Char) :
    cs.count c = (commentText cs).count c + (cutComments cs).count c := by
  have hle := ((cutBlocks_sublist .code _).trans (cutLines_sublist false cs)).count_le c
  rw [commentText, List.count_diff]
  rw [← cutComments] at hle
  omega

/-! ## segments -/

/-- the characters of a segment that its token does not show as punctuation: what is quoted, an annotation, and
a character that opens no lexeme -/
def Segment.hidden : Segment → List Char
  | lexeme (.token .string) x => x.tail.dropLast
  | lexeme (.token _) _ => []
  | lexeme .typeHint x => x
  | gap c => [c]

def countedMarks : List Char := ['\x7b', '\x7d', '(', ')', '[', ']', '"', '\'']

/-- a counted character stands in no lexeme of a class without them -/
theorem notMem_class {p : Char → Bool} (hp : countedMarks.any p = false) {x : List Char} (hx : ∀ c ∈ x, p c = true)
    {c : Char} (hc : c ∈ countedMarks) : c ∉ x := by
  intro hm
  have h := List.any_eq_false.mp hp c hc
  exact h (hx c hm)

theorem notMem_texts {texts : List String}
    (ht : (texts.all fun t => t.toList.all fun c => !countedMarks.contains c) = true) {x : List Char}
    (hx : ∃ t ∈ texts, x = t.toList) {c : Char} (hc : c ∈ countedMarks) : c ∉ x := by
  obtain ⟨t, hm, rfl⟩ := hx
  intro hi
  have h := List.all_eq_true.mp (List.all_eq_true.mp ht t hm) c hi
  rw [List.contains_iff_mem.mpr hc] at h
  cases h

theorem textOf_symbol {c : Char} (hc : c ∈ symbols) : (textOf [c]).toList = [c] := by
  have hq : ∀ q, isQuote q = true → q ∉ [c] := by
    intro q hq hm
    obtain rfl := List.mem_singleton.mp hm
    rcases eq_of_isQuote hq with rfl | rfl
    · exact absurd hc (by decide)
    · exact absurd hc (by decide)
  have ht : textOf (String.ofList [c]).toList = String.ofList [c] :=
    textOf_free (by rw [String.toList_ofList]; exact hq _ rfl) (by rw [String.toList_ofList]; exact hq _ rfl)
  rw [String.toList_ofList] at ht
  rw [ht, String.toList_ofList]

/-- a counted character of a lexeme is hidden, or it is the punctuation, or one of the two quotes around a
string -/
theorem count_lexeme {l : Lexeme} {x : List Char} (h : l.Matches x) {c : Char} (hc : c ∈ countedMarks) :
    ∃ pairs, x.count c = (Segment.lexeme l x).hidden.count c +
        (punctuation (Segment.lexeme l x).token?.toList).count c + 2 * pairs ∧
      (isQuote c = false → pairs = 0) := by
  have hnone : c ∉ x → x.count c = 0 + 0 + 2 * 0 ∧ (isQuote c = false → 0 = 0) := fun hn =>
    ⟨List.count_eq_zero.mpr hn, fun _ => rfl⟩
  cases l with
  | typeHint => exact ⟨0, rfl, fun _ => rfl⟩
  | token kind =>
    cases kind with
    | augAssign => exact ⟨0, hnone (notMem_texts (by decide) h hc)⟩
    | compare => exact ⟨0, hnone (notMem_texts (by decide) h hc)⟩
    | op => exact ⟨0, hnone (notMem_texts (by decide) h hc)⟩
    | number => exact ⟨0, hnone (notMem_class (by decide) h.2 hc)⟩
    | keyword => exact ⟨0, hnone (notMem_texts (by decide) h hc)⟩
    | ident => exact ⟨0, hnone (notMem_class (by decide) (isWord_of_isName h) hc)⟩
    | symbol =>
      obtain ⟨s, hs, rfl⟩ := h
      have hp : punctuation [⟨.symbol, textOf [s]⟩] = [s] := by
        rw [punctuation, if_pos rfl, textOf_symbol hs, punctuation, List.append_nil]
      have hh : (Segment.lexeme (.token .symbol) [s]).hidden = [] := rfl
      have ht : (Segment.lexeme (.token .symbol) [s]).token?.toList = [⟨.symbol, textOf [s]⟩] := rfl
      refine ⟨0, ?_, fun _ => rfl⟩
      rw [ht, hp, hh, List.count_nil, Nat.zero_add, Nat.mul_zero, Nat.add_zero]
    | string =>
      obtain ⟨mark, inner, hq, -, rfl⟩ := h
      have hh : (Segment.lexeme (.token .string) (mark :: inner ++ [mark])).hidden = inner := by
        show (inner ++ [mark]).dropLast = inner
        exact List.dropLast_concat
      have hp : punctuation (Segment.lexeme (.token .string) (mark :: inner ++ [mark])).token?.toList = [] := rfl
      rw [hh, hp]
      by_cases hm : mark = c
      · subst hm
        refine ⟨1, ?_, fun hn => ?_⟩
        · simp
        · rw [hq] at hn
          cases hn
      · refine ⟨0, ?_, fun _ => rfl⟩
        simp [List.count_cons_of_ne hm]
    | other label => cases h

theorem count_segments {before : Option Char} {segs : List Segment} (h : Scanned before segs) {c : Char}
    (hc : c ∈ countedMarks) :
    ∃ pairs, (segmentsText segs).count c = (segs.flatMap Segment.hidden).count c +
        (punctuation (segs.filterMap Segment.token?)).count c + 2 * pairs ∧
      (isQuote c = false → pairs = 0) := by
  induction segs generalizing before with
  | nil => exact ⟨0, rfl, fun _ => rfl⟩
  | cons s segs ih =>
    obtain ⟨more, hmore, hzero⟩ := ih (Scanned.tail h)
    have hs : ∃ pairs, s.text.count c = s.hidden.count c + (punctuation s.token?.toList).count c + 2 * pairs ∧
        (isQuote c = false → pairs = 0) := by
      cases s with
      | lexeme l x => exact count_lexeme h.matches hc
      | gap d => exact ⟨0, rfl, fun _ => rfl⟩
    obtain ⟨pairs, hp, hz⟩ := hs
    have hcut : (s :: segs).filterMap Segment.token? = s.token?.toList ++ segs.filterMap Segment.token? := by
      rw [List.filterMap_cons]
      cases s.token? <;> rfl
    refine ⟨pairs + more, ?_, fun hq => by rw [hz hq, hzero hq]⟩
    rw [hcut, punctuation_append, segmentsText, List.flatMap_cons, List.flatMap_cons]
    rw [segmentsText] at hmore
    simp only [List.count_append]
    omega

end Token

/-! ## hidden characters -/

theorem mem_loose {t : Token} {depth : Option Nat} {ts : List Token} (h : t ∈ loose depth ts) : t ∈ ts := by
  induction ts generalizing depth with
  | nil =>
    cases depth <;> cases h
  | cons u ts ih =>
    cases depth with
    | some depth =>
      rw [loose, List.mem_cons] at h
      exact List.mem_cons.mpr (h.imp_right ih)
    | none =>
      rw [loose] at h
      split at h
      · exact List.mem_cons_of_mem u (ih h)
      · split at h
        · refine List.mem_cons_of_mem u ((List.mem_append.mp h).elim (fun hu => ?_) ih)
          unfold unreadHead at hu
          split at hu
          · rename_i hh
            rw [List.mem_singleton.mp hu]
            exact List.mem_of_mem_head? hh.1
          · cases hu
        · exact List.mem_cons_of_mem u (ih h)

theorem mem_punctuation {c : Char} {ts : List Token} (h : c ∈ punctuation ts) :
    ∃ t ∈ ts, t.kind = .symbol ∧ c ∈ t.text.toList := by
  induction ts with
  | nil => cases h
  | cons t ts ih =>
    rw [punctuation, List.mem_append] at h
    rcases h with h | h
    · split at h
      · exact ⟨t, List.mem_cons_self, ‹_›, h⟩
      · cases h
    · obtain ⟨t', ht, hk⟩ := ih h
      exact ⟨t', List.mem_cons_of_mem t ht, hk⟩

theorem punctuation_quote {before : Option Char} {segs : List Segment} (h : Scanned before segs) {ts : List Token}
    (hts : ∀ t ∈ ts, t ∈ segs.filterMap Segment.token?) {q : Char} (hq : isQuote q = true) :
    (punctuation ts).count q = 0 := by
  refine List.count_eq_zero.mpr fun hm => ?_
  obtain ⟨t, ht, hk, hc⟩ := mem_punctuation hm
  obtain ⟨s, hs, htok⟩ := List.mem_filterMap.mp (hts t ht)
  obtain ⟨early, late, rfl⟩ := List.append_of_mem hs
  obtain ⟨b, hb⟩ := h.at
  cases s with
  | gap c => cases htok
  | lexeme l x =>
    cases l with
    | typeHint => cases htok
    | token kind =>
      cases htok
      obtain rfl : kind = .symbol := hk
      obtain ⟨d, hd, rfl⟩ : ∃ d ∈ symbols, x = [d] := hb.matches
      rw [textOf_symbol hd] at hc
      obtain rfl := List.mem_singleton.mp hc
      rcases eq_of_isQuote hq with rfl | rfl
      · exact absurd hd (by decide)
      · exact absurd hd (by decide)

/-- the hidden characters of a source text: those of its comments and of the segments that are cut out of the
rest, and the loose punctuation -/
def hidden (source : String) (segs : List Segment) : List Char :=
  commentText source.toList ++ segs.flatMap Segment.hidden ++ punctuation (loose none (tokenize source))

theorem needsMore_iff (source : String) :
    needsMore source = true ↔
      (∃ b : Bracket, 0 < b.excess source.toList) ∨ ∃ q, isQuote q = true ∧ source.toList.count q % 2 = 1 := by
  have hopen : ∀ b : Bracket, isOpen b.left b.right source.toList = true ↔ 0 < b.excess source.toList := by
    intro b
    rw [isOpen, decide_eq_true_eq, Bracket.excess]
    omega
  rw [needsMore]
  simp only [Bool.or_eq_true, decide_eq_true_eq]
  constructor
  · rintro ((((h | h) | h) | h) | h)
    · exact Or.inl ⟨.brace, (hopen .brace).mp h⟩
    · exact Or.inl ⟨.paren, (hopen .paren).mp h⟩
    · exact Or.inl ⟨.square, (hopen .square).mp h⟩
    · exact Or.inr ⟨'"', rfl, h⟩
    · exact Or.inr ⟨'\'', rfl, h⟩
  · rintro (⟨b, hb⟩ | ⟨q, hq, h⟩)
    · have hb := (hopen b).mpr hb
      cases b with
      | brace => exact Or.inl (Or.inl (Or.inl (Or.inl hb)))
      | paren => exact Or.inl (Or.inl (Or.inl (Or.inr hb)))
      | square => exact Or.inl (Or.inl (Or.inr hb))
    · rcases eq_of_isQuote hq with rfl | rfl
      · exact Or.inl (Or.inr h)
      · exact Or.inr h

section
variable {source : String} {segs : List Segment} (ht : segmentsText segs = cutComments source.toList)
  (hs : Scanned none segs) (hscan : tokenize source = segs.filterMap Segment.token?)
include ht hs hscan

/-- the brackets of a program that can be read are those that are hidden -/
theorem excess_hidden {body : List Node} (h : parseSource source = .ok body) (b : Bracket) :
    b.excess source.toList = b.excess (hidden source segs) := by
  have hside : ∀ c ∈ countedMarks, isQuote c = false → source.toList.count c =
      (commentText source.toList).count c + (segs.flatMap Segment.hidden).count c +
        (punctuation (tokenize source)).count c := by
    intro c hc hq
    obtain ⟨pairs, hp, hz⟩ := count_segments hs hc
    have hcut := count_cutComments c source.toList
    rw [← ht, hp, hz hq, ← hscan] at hcut
    omega
  have hl := hside b.left (by cases b <;> decide) (by cases b <;> decide)
  have hr := hside b.right (by cases b <;> decide) (by cases b <;> decide)
  have hw : b.excess (punctuation (tokenize source)) = b.excess (punctuation (loose none (tokenize source))) :=
    weigh_of_parse b h
  rw [hidden, b.excess_append, b.excess_append, ← hw]
  simp only [Bracket.excess]
  omega

/-- and so are the quotes, but for those around the strings -/
theorem quotes_hidden {q : Char} (hq : isQuote q = true) :
    source.toList.count q % 2 = (hidden source segs).count q % 2 := by
  have hm : q ∈ countedMarks := by
    rcases eq_of_isQuote hq with rfl | rfl
    · decide
    · decide
  obtain ⟨pairs, hp, -⟩ := count_segments hs hm
  have hcut := count_cutComments q source.toList
  have hall := punctuation_quote hs (fun t h => h) hq
  have hsub : ∀ t ∈ loose none (tokenize source), t ∈ segs.filterMap Segment.token? := by
    intro t hl
    rw [← hscan]
    exact mem_loose hl
  have hloose := punctuation_quote hs hsub hq
  rw [← ht, hp, hall] at hcut
  rw [hidden, List.count_append, List.count_append, hloose]
  omega

end

/-- **A program that can be read is taken for unfinished exactly if its hidden characters are.** The text without
its comments is cut into segments. What stands in comments, strings, annotations and gaps, with the punctuation
of embedded blocks and of heads of handlers that are left, opens more brackets of a pair than it closes, or has
an odd number of one of the quotes. -/
theorem needsMore_of_parse {source : String} {body : List Node} (h : parseSource source = .ok body) :
    ∃ segs : List Segment, segmentsText segs = cutComments source.toList ∧ Scanned none segs ∧
      tokenize source = segs.filterMap Segment.token? ∧
      (needsMore source = true ↔
        (∃ b : Bracket, (hidden source segs).count b.right < (hidden source segs).count b.left) ∨
          ∃ q, isQuote q = true ∧ (hidden source segs).count q % 2 = 1) := by
  obtain ⟨segs, ht, hs, hscan⟩ := exists_scanned none (cutComments source.toList)
  refine ⟨segs, ht, hs, hscan, (needsMore_iff source).trans (or_congr ?_ ?_)⟩
  · refine exists_congr fun b => ?_
    rw [excess_hidden ht hs hscan h b, Bracket.excess]
    omega
  · refine exists_congr fun q => and_congr_right fun hq => ?_
    rw [quotes_hidden ht hs hscan hq]

/-- in `x = "("` the bracket is quoted, and the text is taken for unfinished -/
theorem needsMore_of_parse_quoted :
    parseSource "x = \"(\"" = .ok [.assign "x" (.str "(")] ∧
      ∃ segs, segmentsText segs = "x = \"(\"".toList ∧ hidden "x = \"(\"" segs = [' ', ' ', '('] ∧
        needsMore "x = \"(\"" = true := by
  have hread : parseSource "x = \"(\"" = .ok [.assign "x" (.str "(")] := by
    have ht : tokenize "x = \"(\"" = [⟨.ident, "x"⟩, ⟨.op, "="⟩, ⟨.string, "("⟩] := by decide +kernel
    rw [parseSource, ht]
    rfl
  obtain ⟨segs, ht, hs, -, hiff⟩ := needsMore_of_parse hread
  have hcut : segs = [.lexeme (.token .ident) ['x'], .gap ' ', .lexeme (.token .op) ['='], .gap ' ',
      .lexeme (.token .string) ['"', '(', '"']] := by
    refine scanned_unique (ht.trans ?_) hs ⟨?_, ?_, ?_, ?_, ?_, ?_, ?_, ?_, trivial⟩
    all_goals decide +kernel
  have hh : hidden "x = \"(\"" segs = [' ', ' ', '('] := by
    rw [hcut]
    decide +kernel
  refine ⟨hread, segs, ?_, hh, hiff.mpr (Or.inl ⟨.paren, ?_⟩)⟩
  · rw [ht]
    decide +kernel
  · rw [hh]
    decide

end BraceScript
