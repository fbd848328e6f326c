import BraceScript.Proofs.Parse.Brackets

/-!
# Nested brackets

The brackets of a program that is read are nested: each is closed by one of its own kind, after all that was
opened inside it. The one exception is the head of a handler. If it is not a name in parentheses, it is left after
its parenthesis, which is then never closed.

* `Edge`, `edges`    the brackets of a list of tokens
* `Nested`           brackets that are nested and closed
* `closes`           the check with a stack of what is open; `closes_iff_nested` says that it is right
* `kept`             the tokens without the parentheses of heads that are left
* `nested_of_parse`  what is kept of a program is nested, and the whole program is unless a head is left
-/

namespace BraceScript

open Parse

/-! ## bracket sequences -/

/-- one side of a pair of brackets -/
inductive Edge
  | left (b : Bracket)
  | right (b : Bracket)
deriving DecidableEq, Repr

/-- brackets that are nested and closed -/
inductive Nested : List Edge → Prop
  | nil : Nested []
  | pair (b : Bracket) {inner rest : List Edge} (hi : Nested inner) (hr : Nested rest) :
      Nested (.left b :: (inner ++ .right b :: rest))

/-- do the brackets close what is open, the innermost first, and all that they open themselves? -/
def closes : List Bracket → List Edge → Bool
  | s, .left b :: es => closes (b :: s) es
  | b :: s, .right c :: es => b = c && closes s es
  | [], .right _ :: _ => false
  | s, [] => s.isEmpty

theorem Nested.closes_append {es : List Edge} (h : Nested es) (s : List Bracket) (fs : List Edge) :
    closes s (es ++ fs) = closes s fs := by
  induction h generalizing s fs with
  | nil => rfl
  | @pair b inner rest hi hr ihi ihr =>
    have hopen : closes s (.left b :: (inner ++ .right b :: rest) ++ fs) =
        closes (b :: s) (inner ++ (.right b :: (rest ++ fs))) := by
      rw [List.cons_append, List.append_assoc, List.cons_append, closes]
    rw [hopen, ihi, closes, decide_eq_true rfl, Bool.true_and, ihr]

/-- what closes an open bracket is nested up to the bracket that does it -/
theorem exists_inner_of_closes {b : Bracket} {s : List Bracket} {es : List Edge} (h : closes (b :: s) es = true) :
    ∃ inner rest, es = inner ++ .right b :: rest ∧ Nested inner ∧ closes s rest = true := by
  -- after a bracket inside, what is left to look at is shorter but no tail of known length
  induction hn : es.length using Nat.strongRecOn generalizing b s es with
  | ind n ih =>
    match es, h with
    | .right c :: es, h =>
      rw [closes, Bool.and_eq_true, decide_eq_true_iff] at h
      obtain ⟨rfl, h⟩ := h
      exact ⟨[], es, rfl, .nil, h⟩
    | .left c :: es, h =>
      subst hn
      rw [closes] at h
      obtain ⟨inner, rest, rfl, hi, h⟩ := ih _ (by simp) h rfl
      obtain ⟨next, rest, rfl, hx, h⟩ := ih _ (by simp; omega) h rfl
      refine ⟨.left c :: (inner ++ .right c :: next), rest, ?_, .pair c hi hx, h⟩
      simp only [List.cons_append, List.append_assoc]

/-- **The check is right.** -/
theorem closes_iff_nested {es : List Edge} : closes [] es = true ↔ Nested es := by
  constructor
  · intro h
    induction hn : es.length using Nat.strongRecOn generalizing es with
    | ind n ih =>
      match es, h with
      | [], _ => exact .nil
      | .left b :: es, h =>
        subst hn
        rw [closes] at h
        obtain ⟨inner, rest, rfl, hi, h⟩ := exists_inner_of_closes h
        have hr : Nested rest := ih rest.length (by simp; omega) h rfl
        exact .pair b hi hr
  · intro h
    have hc := h.closes_append [] []
    rw [List.append_nil] at hc
    exact hc

instance (es : List Edge) : Decidable (Nested es) := decidable_of_iff _ closes_iff_nested

theorem Nested.count {es : List Edge} (h : Nested es) (b : Bracket) :
    es.count (.left b) = es.count (.right b) := by
  induction h with
  | nil => rfl
  | @pair c inner rest hi hr ihi ihr =>
    by_cases hc : c = b
    · subst hc
      simp only [List.count_cons, List.count_append, beq_self_eq_true, if_true, reduceCtorEq, beq_iff_eq, if_false]
      omega
    · simp only [List.count_cons, List.count_append, beq_iff_eq, Edge.left.injEq, Edge.right.injEq, hc, if_false,
        reduceCtorEq]
      omega

/-! ## brackets of tokens -/

def Token.edge? (t : Token) : Option Edge :=
  [Bracket.brace, .paren, .square].findSome? fun b =>
    if t = ⟨.symbol, b.opening⟩ then some (.left b)
    else if t = ⟨.symbol, b.closing⟩ then some (.right b)
    else none

/-- the brackets of a list of tokens -/
def edges (ts : List Token) : List Edge := ts.filterMap Token.edge?

theorem edges_cons (t : Token) (ts : List Token) : edges (t :: ts) = t.edge?.toList ++ edges ts := by
  rw [edges, List.filterMap_cons]
  cases t.edge? with
  | none => rfl
  | some e => rfl

theorem edges_opening (b : Bracket) (ts : List Token) : edges (⟨.symbol, b.opening⟩ :: ts) = .left b :: edges ts := by
  cases b <;> exact List.filterMap_cons_some (by decide)

theorem edges_closing (b : Bracket) (ts : List Token) : edges (⟨.symbol, b.closing⟩ :: ts) = .right b :: edges ts := by
  cases b <;> exact List.filterMap_cons_some (by decide)

theorem edges_separator {text : String} (h : text ∈ separators) (ts : List Token) :
    edges (⟨.symbol, text⟩ :: ts) = edges ts := by
  have hs : ∀ text ∈ separators, Token.edge? ⟨.symbol, text⟩ = none := by decide
  exact List.filterMap_cons_none (hs text h)

theorem edges_other {t : Token} (h : t.kind ≠ .symbol) (ts : List Token) : edges (t :: ts) = edges ts := by
  have hk : ∀ text, t ≠ ⟨.symbol, text⟩ := fun text ht => h (congrArg Token.kind ht)
  apply List.filterMap_cons_none
  simp only [Token.edge?, hk, if_false, List.findSome?_cons, List.findSome?_nil]

/-! ## heads of handlers -/

/-- the tokens without the parentheses of heads that are left; the flag says that one is next -/
def kept : Bool → List Token → List Token
  | _, [] => []
  | true, _ :: ts => kept false ts
  | false, t :: ts => t :: kept (t = ⟨.keyword, "catch"⟩ && !(unreadHead ts).isEmpty) ts

/-- every head of a handler that begins with a parenthesis is a name in parentheses -/
def HeadsRead (ts : List Token) : Prop :=
  ∀ post, ⟨.keyword, "catch"⟩ :: ⟨.symbol, "("⟩ :: post <:+ ts →
    ∃ name rest, post = ⟨.ident, name⟩ :: ⟨.symbol, ")"⟩ :: rest

theorem kept_cons {t : Token} (h : t ≠ ⟨.keyword, "catch"⟩) (ts : List Token) :
    kept false (t :: ts) = t :: kept false ts := by
  rw [kept, decide_eq_false h, Bool.false_and]

theorem kept_symbol (text : String) (ts : List Token) :
    kept false (⟨.symbol, text⟩ :: ts) = ⟨.symbol, text⟩ :: kept false ts := by
  have hc : (⟨.symbol, text⟩ : Token) ≠ ⟨.keyword, "catch"⟩ := fun h => nomatch congrArg Token.kind h
  exact kept_cons hc ts

theorem kept_catch (ts : List Token) :
    kept false (⟨.keyword, "catch"⟩ :: ts) = ⟨.keyword, "catch"⟩ :: kept (!(unreadHead ts).isEmpty) ts := by
  rw [kept, decide_eq_true rfl, Bool.true_and]

theorem unreadHead_eq_nil {ts : List Token} : unreadHead ts = [] ↔
    ∀ post, ts = ⟨.symbol, "("⟩ :: post → ∃ name rest, post = ⟨.ident, name⟩ :: ⟨.symbol, ")"⟩ :: rest := by
  unfold unreadHead handlerName
  split
  · simp
  · rename_i name ts hno
    simp only [List.head?_cons, and_self, if_true, List.cons_ne_self, false_iff]
    intro h
    obtain ⟨name', rest, hp⟩ := h _ rfl
    cases hp
    exact hno _ rfl
  · rename_i ts hno hno'
    simp only [List.head?_cons, and_self, if_true, List.cons_ne_self, false_iff]
    intro h
    obtain ⟨name', rest, rfl⟩ := h _ rfl
    exact hno _ _ rfl
  · rename_i hno
    have hh : ts.head? ≠ some ⟨.symbol, "("⟩ := by
      intro hh
      obtain ⟨us, rfl⟩ := List.head?_eq_some_iff.mp hh
      exact hno us rfl
    rw [if_neg (fun h => hh h.1)]
    exact iff_of_true rfl fun post hp => absurd hp (hno post)

theorem headsRead_cons {t : Token} {ts : List Token} :
    HeadsRead (t :: ts) ↔ (t = ⟨.keyword, "catch"⟩ → unreadHead ts = []) ∧ HeadsRead ts := by
  constructor
  · intro h
    constructor
    · rintro rfl
      rw [unreadHead_eq_nil]
      rintro post rfl
      exact h post (List.suffix_refl _)
    · intro post hp
      exact h post (hp.trans (List.suffix_cons t ts))
  · rintro ⟨ht, h⟩ post hp
    rcases List.suffix_cons_iff.mp hp with he | hp
    · injection he with ht' he
      exact unreadHead_eq_nil.mp (ht ht'.symm) post he.symm
    · exact h post hp

/-- the parenthesis that is left out is next where the flag says so -/
theorem head_of_unread {ts : List Token} (h : (!(unreadHead ts).isEmpty) = true) :
    ts.head? = some ⟨.symbol, "("⟩ := by
  unfold unreadHead at h
  split at h
  · rename_i hc
    exact hc.1
  · cases h

theorem kept_sublist (flag : Bool) (ts : List Token) : (kept flag ts).Sublist ts := by
  fun_induction kept flag ts with
  | case1 => exact List.Sublist.slnil
  | case2 t ts ih => exact ih.cons t
  | case3 t ts ih => exact ih.cons_cons t

/-- what is left out are opening parentheses -/
theorem exists_count_kept (flag : Bool) (ts : List Token) (hh : flag = true → ts.head? = some ⟨.symbol, "("⟩) :
    ∃ k, ts.length = (kept flag ts).length + k ∧
      ∀ e, (edges ts).count e = (edges (kept flag ts)).count e + if e = .left .paren then k else 0 := by
  induction ts generalizing flag with
  | nil =>
    cases flag with
    | true => cases hh rfl
    | false => exact ⟨0, rfl, fun e => by simp [kept]⟩
  | cons t ts ih =>
    cases flag with
    | true =>
      obtain rfl : t = ⟨.symbol, "("⟩ := Option.some.inj (hh rfl)
      obtain ⟨k, hk, hc⟩ := ih false nofun
      refine ⟨k + 1, ?_, fun e => ?_⟩
      · rw [kept, List.length_cons, hk, Nat.add_assoc]
      · have ho : edges (⟨.symbol, "("⟩ :: ts) = .left .paren :: edges ts := edges_opening .paren ts
        rw [ho, kept, List.count_cons, hc e]
        by_cases he : e = .left .paren
        · subst he
          simp [Nat.add_assoc]
        · simp [he, Ne.symm he]
    | false =>
      have hn : (t = ⟨.keyword, "catch"⟩ && !(unreadHead ts).isEmpty) = true →
          ts.head? = some ⟨.symbol, "("⟩ := by
        intro h
        exact head_of_unread (Bool.and_eq_true_iff.mp h).2
      obtain ⟨k, hk, hc⟩ := ih _ hn
      refine ⟨k, ?_, fun e => ?_⟩
      · rw [kept, List.length_cons, List.length_cons, hk]
        omega
      · rw [kept, edges_cons t ts, edges_cons, List.count_append, List.count_append, hc e, Nat.add_assoc]

theorem kept_eq_self {ts : List Token} : kept false ts = ts ↔ HeadsRead ts := by
  induction ts with
  | nil =>
    refine iff_of_true rfl fun post hp => ?_
    cases List.suffix_nil.mp hp
  | cons t ts ih =>
    rw [headsRead_cons, kept]
    by_cases hf : (t = ⟨.keyword, "catch"⟩ && !(unreadHead ts).isEmpty) = true
    · -- the parenthesis that is next is missing
      have hu := (Bool.and_eq_true_iff.mp hf).2
      obtain ⟨us, rfl⟩ := List.head?_eq_some_iff.mp (head_of_unread hu)
      obtain ⟨k, hk, -⟩ := exists_count_kept false us nofun
      rw [hf, kept]
      apply iff_of_false
      · intro he
        have hl := congrArg List.length he
        simp only [List.length_cons] at hl
        omega
      · rintro ⟨hr, -⟩
        rw [Bool.and_eq_true_iff, decide_eq_true_iff] at hf
        rw [hr hf.1] at hu
        cases hu
    · rw [Bool.not_eq_true] at hf
      rw [hf, List.cons.injEq, ih]
      constructor
      · rintro ⟨-, h⟩
        refine ⟨fun ht => ?_, h⟩
        rw [decide_eq_true ht, Bool.true_and, Bool.not_eq_false', List.isEmpty_iff] at hf
        exact hf
      · rintro ⟨-, h⟩
        exact ⟨rfl, h⟩

/-! ## programs -/

theorem closes_handler {s : List Bracket} {ts : List Token}
    (h : closes s (edges (kept false (handlerName ts).2)) = true) :
    closes s (edges (kept false (⟨.keyword, "catch"⟩ :: ts))) = true := by
  have hname : ∀ name us, edges (kept false (⟨.ident, name⟩ :: us)) = edges (kept false us) := by
    intro name us
    have hc : (⟨.ident, name⟩ : Token) ≠ ⟨.keyword, "catch"⟩ := fun h => nomatch congrArg Token.kind h
    rw [kept_cons hc, edges_other (by simp)]
  have hleft : ∀ us, edges (⟨.symbol, "("⟩ :: us) = .left .paren :: edges us := edges_opening .paren
  have hright : ∀ us, edges (⟨.symbol, ")"⟩ :: us) = .right .paren :: edges us := edges_closing .paren
  rw [kept_catch, edges_other (by simp)]
  unfold unreadHead handlerName at *
  split at h
  · rw [if_neg (by simp)]
    rw [List.isEmpty_nil, Bool.not_true, kept_symbol, hleft, hname, kept_symbol, hright, closes, closes,
      decide_eq_true rfl, Bool.true_and]
    exact h
  · rw [if_pos (by simp), List.isEmpty_cons, Bool.not_false, kept, hname]
    exact h
  · rw [if_pos (by simp), List.isEmpty_cons, Bool.not_false, kept]
    exact h
  · rename_i hno
    have hh : ts.head? ≠ some ⟨.symbol, "("⟩ := by
      intro hh
      obtain ⟨us, rfl⟩ := List.head?_eq_some_iff.mp hh
      exact hno us rfl
    rw [if_neg (fun h => hh h.1), List.isEmpty_nil, Bool.not_true]
    exact h

/-- the account by nesting, for tokens without an embedded block -/
def nesting : Ledger (List Bracket) where
  settles s ts := ⟨.keyword, "ffi"⟩ ∉ ts → closes s (edges (kept false ts)) = true
  enter b s := b :: s
  opens b {s ts} h hf := by
    rw [kept_symbol, edges_opening, closes]
    exact h (List.not_mem_of_not_mem_cons hf)
  closes b {s ts} h hf := by
    rw [kept_symbol, edges_closing, closes, decide_eq_true rfl, Bool.true_and]
    exact h (List.not_mem_of_not_mem_cons hf)
  separates {text} ht {s ts} h hf := by
    rw [kept_symbol, edges_separator ht]
    exact h (List.not_mem_of_not_mem_cons hf)
  passes {t} hs _ hc {s ts} h hf := by
    rw [kept_cons hc, edges_other hs]
    exact h (List.not_mem_of_not_mem_cons hf)
  embeds {s ts} h hf := absurd List.mem_cons_self hf
  handles {s ts} h hf := by
    have hsub : ∀ t ∈ (handlerName ts).2, t ∈ ts := (handlerName_suffix ts).subset
    exact closes_handler (h fun hm => hf (List.mem_cons_of_mem _ (hsub _ hm)))

/-- **The brackets of a program that is read are nested**, without the parentheses of heads of handlers that are
left. So the brackets of a program without embedded blocks are nested exactly if no head is left. -/
theorem nested_of_parse {ts : List Token} {body : List Node} (hf : ⟨.keyword, "ffi"⟩ ∉ ts) (h : parse ts = .ok body) :
    Nested (edges (kept false ts)) ∧ (Nested (edges ts) ↔ HeadsRead ts) := by
  have hk : Nested (edges (kept false ts)) :=
    closes_iff_nested.mp (settles_of_parse nesting h (fun _ _ => trivial) (s := []) (fun _ => rfl) hf)
  refine ⟨hk, fun hn => ?_, fun hr => ?_⟩
  · -- every parenthesis that is left out is one that is not closed
    obtain ⟨k, hl, hc⟩ := exists_count_kept false ts nofun
    have hkept := hk.count .paren
    have hall := hn.count .paren
    rw [hc, hc, if_pos rfl, if_neg (by simp)] at hall
    have hlength : (kept false ts).length = ts.length := by omega
    exact kept_eq_self.mp ((kept_sublist false ts).eq_of_length hlength)
  · rw [← kept_eq_self.mpr hr]
    exact hk

/-- the tokens of a handler whose head is left after its parenthesis -/
def openHandler : List Token :=
  [⟨.keyword, "try"⟩, ⟨.symbol, "\x7b"⟩, ⟨.symbol, "\x7d"⟩, ⟨.keyword, "catch"⟩, ⟨.symbol, "("⟩, ⟨.symbol, "\x7b"⟩,
    ⟨.symbol, "\x7d"⟩]

/-- a handler with an open parenthesis is read, and its brackets are not nested -/
theorem nested_of_parse_open :
    parse openHandler = .ok [.tryCatch none [] []] ∧ ¬ Nested (edges openHandler) ∧
      Nested (edges (kept false openHandler)) := by
  have hp : parse openHandler = .ok [.tryCatch none [] []] := rfl
  obtain ⟨hk, hn⟩ := nested_of_parse (by decide) hp
  refine ⟨hp, fun h => ?_, hk⟩
  obtain ⟨name, rest, hr⟩ := hn.mp h [⟨.symbol, "\x7b"⟩, ⟨.symbol, "\x7d"⟩] ⟨openHandler.take 3, rfl⟩
  cases hr

end BraceScript
