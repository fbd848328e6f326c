import BraceScript.Proofs.Parse.Alike
import BraceScript.Proofs.Parse.Reader

/-!
# Readers on two lists of tokens

The same reader runs on a list of tokens and on a changed copy of it: the texts of strings are changed, or
tokens that begin a statement are put at the end. Both runs look at tokens by their texts, so they part
only where a changed text is one that is looked for.

* `steering`, `tested`    the texts that are looked for without a look at the kind of the token
* `Change`                what is changed, with `Change.Near` for the lists that are left
* `Change.Outcome`        how the two runs may end
* `Change.Agree`          two readers end so on all lists that are near to each other
* `agree_bind`, `agree_atText`, `agree_expect`, ...   readers put together from smaller ones agree
-/

namespace BraceScript

open Parse
open List (Forall₂)

variable {α β γ δ : Type}

/-! ## texts that are looked for -/

/-- the reserved words that begin a statement -/
def openers : List String :=
  ["def", "if", "for", "while", "break", "continue", "return", "global", "try", "throw", "class", "ffi",
    "match"]

/-- the texts that decide how the tokens around them are read, whatever the kind of the token -/
def steering : List String := ["\x7b", "\x7d", ":", "|", ";"]

/-- the texts that call for a token of a certain kind, where a string does not fit -/
def tested : List String :=
  statementWords ++ ["in", "not", "and", "or", "(", "[", ".", "?", "**", "*", "=", ",", ")", "]", "elif", "else"]

def ParseError.shown? : ParseError → Option Token
  | .expected _ t => some t
  | .unexpected t => t
  | .caseExpected t => t
  | .memberExpected t => t
  | _ => none

/-! ## balanced braces -/

/-- how many braces are open after the tokens; none if one is closed that is not open -/
def braceDepth : Nat → List Token → Option Nat
  | d, [] => some d
  | d, t :: ts =>
    if t.text = "\x7b" then braceDepth (d + 1) ts
    else if t.text = "\x7d" then (if d = 0 then none else braceDepth (d - 1) ts)
    else braceDepth d ts

/-- the tokens close the braces that are open before them, and spell braces by punctuation only -/
structure Closes (d : Nat) (ts : List Token) : Prop where
  marks : ∀ t ∈ ts, t.text = "\x7b" ∨ t.text = "\x7d" → t.kind = .symbol
  depth : braceDepth d ts = some 0

namespace Closes

variable {d : Nat} {t : Token} {ts : List Token}

theorem marks_tail (h : Closes d (t :: ts)) :
    ∀ t ∈ ts, t.text = "\x7b" ∨ t.text = "\x7d" → t.kind = .symbol :=
  fun u hu => h.marks u (List.mem_cons_of_mem t hu)

theorem push (h : Closes d (t :: ts)) (ht : t.text = "\x7b") : Closes (d + 1) ts := by
  refine ⟨h.marks_tail, ?_⟩
  have hd := h.depth
  rwa [braceDepth, if_pos ht] at hd

theorem pop (h : Closes d (t :: ts)) (ht : t.text = "\x7d") : d ≠ 0 ∧ Closes (d - 1) ts := by
  have hne : t.text ≠ "\x7b" := by
    rw [ht]
    decide
  have hd := h.depth
  rw [braceDepth, if_neg hne, if_pos ht] at hd
  split at hd
  · cases hd
  · exact ⟨‹_›, h.marks_tail, hd⟩

theorem keep (h : Closes d (t :: ts)) (ho : t.text ≠ "\x7b") (hc : t.text ≠ "\x7d") : Closes d ts := by
  refine ⟨h.marks_tail, ?_⟩
  have hd := h.depth
  rwa [braceDepth, if_neg ho, if_neg hc] at hd

theorem tail (h : Closes d (t :: ts)) : ∃ d', Closes d' ts := by
  by_cases ho : t.text = "\x7b"
  · exact ⟨_, h.push ho⟩
  · by_cases hc : t.text = "\x7d"
    · exact ⟨_, (h.pop hc).2⟩
    · exact ⟨_, h.keep ho hc⟩

end Closes

/-! ## lists that are near to each other -/

def OpensStatement (ts : List Token) : Prop := ∃ t us, ts = t :: us ∧ t.kind = .keyword ∧ t.text ∈ openers

/-- what is changed: the texts of strings, and what stands at the end -/
structure Change where
  swap : String → String → Prop
  tail : List Token
  inert {s s' : String} (h : swap s s') : s = s' ∨ s ∉ steering ∧ s' ∉ steering
  opens : tail = [] ∨ OpensStatement tail

namespace Change

/-- a list and its changed copy -/
inductive Like (c : Change) : List Token → List Token → Prop
  | nil : Like c [] c.tail
  | cons {t t' : Token} {ts ts' : List Token} (h : Token.Alike c.swap t t') (hs : Like c ts ts') :
    Like c (t :: ts) (t' :: ts')

/-- a list and its changed copy; when something is put at the end, the list closes its braces -/
structure Near (c : Change) (ts ts' : List Token) : Prop where
  like : c.Like ts ts'
  closes : c.tail = [] ∨ ∃ d, Closes d ts

/-- how the fronts of two lists compare -/
inductive Fronts (c : Change) : List Token → List Token → Prop
  /-- both lists are at their end -/
  | done (h : c.tail = []) : Fronts c [] []
  /-- one list is at its end, and a statement begins in the other -/
  | opens {t : Token} {ts : List Token} (h : c.tail = t :: ts) (hk : t.kind = .keyword)
    (ht : t.text ∈ openers) : Fronts c [] (t :: ts)
  | same {t : Token} {ts us : List Token} (hk : t.kind ≠ .string) (hn : c.Near ts us) :
    Fronts c (t :: ts) (t :: us)
  | string {s s' : String} {ts us : List Token} (hk : c.swap s s') (hn : c.Near ts us) :
    Fronts c (⟨.string, s⟩ :: ts) (⟨.string, s'⟩ :: us)

variable {c : Change}

theorem Near.fronts {ts ts' : List Token} (h : c.Near ts ts') : c.Fronts ts ts' := by
  obtain ⟨hl, hc⟩ := h
  cases hl with
  | nil =>
    rcases c.opens with ht | ⟨t, us, ht, hk, hw⟩
    · rw [ht]
      exact .done ht
    · rw [ht]
      exact .opens ht hk hw
  | @cons t t' ts us ha hs =>
    have hn : c.Near ts us := ⟨hs, hc.imp id fun ⟨d, hd⟩ => hd.tail⟩
    cases ha with
    | same hk => exact .same hk hn
    | string hk => exact .string hk hn

theorem Near.length_le {ts ts' : List Token} (h : c.Near ts ts') : ts.length ≤ ts'.length := by
  obtain ⟨hl, -⟩ := h
  induction hl with
  | nil => exact Nat.zero_le _
  | cons _ _ ih => exact Nat.succ_le_succ ih

/-! ## how two runs may end -/

/-- errors that are equal, or show the two texts of a changed string -/
def Similar (c : Change) (e e' : ParseError) : Prop :=
  e = e' ∨ ∃ s s', c.swap s s' ∧ s ≠ s' ∧ e.shown? = some ⟨.string, s⟩ ∧ e'.shown? = some ⟨.string, s'⟩

/-- the token that is shown when a string of a tested text does not fit: the string, or the word before it -/
def Blamed (s : String) (t : Token) : Prop := t = ⟨.string, s⟩ ∨ s = "in" ∧ t.text = "not"

/-- errors of the first run that say nothing about the second one -/
inductive Lax (c : Change) : ParseError → Prop
  | deep : Lax c .tooDeep
  | atEnd {e : ParseError} (h : c.tail ≠ []) : Lax c e
  | stumble {what s s' : String} {t : Token} (hs : c.swap s s') (hne : s ≠ s') (ht : s ∈ tested)
    (hb : Blamed s t) : Lax c (.expected what t)

/-- errors of the second run that the first run need not have -/
inductive Trips (c : Change) : ParseError → Prop
  | stumble {what s s' : String} {t : Token} (hs : c.swap s s') (hne : s ≠ s') (ht : s' ∈ tested)
    (hb : Blamed s' t) : Trips c (.expected what t)

/-- how two runs may end -/
inductive Outcome (c : Change) (R : α → β → Prop) :
    Except ParseError (α × List Token) → Except ParseError (β × List Token) → Prop
  | ok {a : α} {b : β} {us us' : List Token} (h : R a b) (hn : c.Near us us') :
    Outcome c R (.ok (a, us)) (.ok (b, us'))
  | fails {e e' : ParseError} (h : c.Similar e e') : Outcome c R (.error e) (.error e')
  | lax {e : ParseError} {r : Except ParseError (β × List Token)} (h : c.Lax e) : Outcome c R (.error e) r
  | trips {r : Except ParseError (α × List Token)} {e : ParseError} (h : c.Trips e) :
    Outcome c R r (.error e)

/-- two readers end in the same way on lists that are near to each other -/
def Agree (c : Change) (R : α → β → Prop) (x : Parse α) (y : Parse β) : Prop :=
  ∀ ts ts', c.Near ts ts' → c.Outcome R (x ts) (y ts')

variable {R : α → β → Prop} {S : γ → δ → Prop} {kind : Token.Kind} {ts ts' : List Token} {x : Parse α}

theorem similar_refl (e : ParseError) : c.Similar e e := Or.inl rfl

/-- errors of one form that show the front of the lists -/
theorem similar_shown {s s' : String} (h : c.swap s s') {f : Token → ParseError}
    (hf : ∀ t, (f t).shown? = some t) : c.Similar (f ⟨.string, s⟩) (f ⟨.string, s'⟩) := by
  by_cases he : s = s'
  · rw [he]
    exact similar_refl _
  · exact Or.inr ⟨s, s', h, he, hf _, hf _⟩

/-! ## readers put together -/

theorem agree_pure {a : α} {b : β} (h : R a b) : c.Agree R (pure a) (pure b) := fun _ _ hn => .ok h hn

theorem agree_throw (e : ParseError) : c.Agree R (throw e) (throw e) := fun _ _ _ => .fails (similar_refl e)

theorem outcome_bind {p : Parse α} {q : Parse β} (h : c.Outcome R (p ts) (q ts')) {f : α → Parse γ}
    {f' : β → Parse δ}
    (hf : ∀ a b us us', p ts = .ok (a, us) → R a b → c.Near us us' → c.Outcome S (f a us) (f' b us')) :
    c.Outcome S ((p >>= f) ts) ((q >>= f') ts') := by
  generalize hp : p ts = x at h
  generalize hq : q ts' = y at h
  cases h with
  | ok h hn =>
    rw [bind_ok hp, bind_ok hq]
    exact hf _ _ _ _ hp h hn
  | fails h =>
    rw [bind_error hp, bind_error hq]
    exact .fails h
  | lax h =>
    rw [bind_error hp]
    exact .lax h
  | trips h =>
    rw [bind_error hq]
    exact .trips h

theorem agree_bind {y : Parse β} (hx : c.Agree R x y) {f : α → Parse γ} {f' : β → Parse δ}
    (hf : ∀ a b, R a b → c.Agree S (f a) (f' b)) : c.Agree S (x >>= f) (y >>= f') :=
  fun ts ts' hn => outcome_bind (hx ts ts' hn) fun a b us us' _ h => hf a b h us us'

/-- a step whose results are equal -/
theorem agree_then {y : Parse α} (hx : c.Agree Eq x y) {f : α → Parse γ} {f' : α → Parse δ}
    (hf : ∀ a, c.Agree S (f a) (f' a)) : c.Agree S (x >>= f) (y >>= f') :=
  agree_bind hx fun a _ h => h ▸ hf a

theorem outcome_ite {p : Prop} [Decidable p] {y : Parse α} {x' y' : Parse β} (hx : c.Outcome R (x ts) (x' ts'))
    (hy : c.Outcome R (y ts) (y' ts')) :
    c.Outcome R ((if p then x else y) ts) ((if p then x' else y') ts') := by
  split
  · exact hx
  · exact hy

theorem agree_ite {p : Prop} [Decidable p] {y : Parse α} {x' y' : Parse β} (hx : c.Agree R x x')
    (hy : c.Agree R y y') : c.Agree R (if p then x else y) (if p then x' else y') :=
  fun ts ts' hn => outcome_ite (hx ts ts' hn) (hy ts ts' hn)

theorem agree_bounded {x : Nat → Parse γ} {y : Nat → Parse δ}
    (h : ∀ fuel fuel', fuel ≤ fuel' → c.Agree S (x fuel) (y fuel')) :
    c.Agree S (get >>= fun ts => x (ts.length + 1)) (get >>= fun ts => y (ts.length + 1)) :=
  fun ts ts' hn => h _ _ (Nat.succ_le_succ hn.length_le) ts ts' hn

theorem agree_loop {x : Nat → Parse α} {y : Nat → Parse β}
    (h : ∀ fuel fuel', fuel ≤ fuel' → c.Agree R (x fuel) (y fuel')) {f : α → Parse γ} {f' : β → Parse δ}
    (hf : ∀ a b, R a b → c.Agree S (f a) (f' b)) :
    c.Agree S (get >>= fun ts => x (ts.length + 1) >>= f) (get >>= fun ts => y (ts.length + 1) >>= f') := by
  rw [← bind_assoc, ← bind_assoc]
  exact agree_bind (agree_bounded h) hf

/-! ## taking a token -/

/-- readers that fail alike where no token is left -/
theorem agree_fronts {y : Parse β} {e : ParseError} (hx : x [] = .error e) (hy : y [] = .error e)
    (hsame : ∀ {t us us'}, t.kind ≠ .string → c.Near us us' → c.Near (t :: us) (t :: us') →
      c.Outcome R (x (t :: us)) (y (t :: us')))
    (hstring : ∀ {s s' us us'}, c.swap s s' → c.Near us us' → c.Near (⟨.string, s⟩ :: us) (⟨.string, s'⟩ :: us') →
      c.Outcome R (x (⟨.string, s⟩ :: us)) (y (⟨.string, s'⟩ :: us'))) : c.Agree R x y := by
  intro ts ts' hn
  cases hn.fronts with
  | done _ =>
    rw [hx, hy]
    exact .fails (similar_refl e)
  | opens ht _ _ =>
    rw [hx]
    exact .lax (.atEnd (by rw [ht]; exact List.cons_ne_nil _ _))
  | same hk hr => exact hsame hk hr hn
  | string hs hr => exact hstring hs hr hn

theorem agree_expectKind (hk : kind ≠ .string) : c.Agree Eq (expectKind kind) (expectKind kind) := by
  refine agree_fronts rfl rfl (fun {t _ _} _ hr _ => ?_) fun hs _ _ => ?_
  · by_cases h : t.kind = kind
    · simp only [expectKind, bind_run, get_run, h, ne_eq, not_true_eq_false, if_false, set_run, pure_run]
      exact .ok rfl hr
    · simp only [expectKind, bind_run, get_run, h, ne_eq, not_false_eq_true, if_true, throw_run]
      exact .fails (similar_refl _)
  · simp only [expectKind, bind_run, get_run, Ne.symm hk, ne_eq, not_false_eq_true, if_true, throw_run]
    exact .fails (similar_shown hs fun _ => rfl)

theorem agree_expectString :
    c.Agree (fun t t' => c.swap t.text t'.text) (expectKind .string) (expectKind .string) := by
  refine agree_fronts rfl rfl (fun hk _ _ => ?_) fun hs hr _ => ?_
  · simp only [expectKind, bind_run, get_run, hk, ne_eq, not_false_eq_true, if_true, throw_run]
    exact .fails (similar_refl _)
  · rw [expectKind_run, expectKind_run]
    exact .ok hs hr

theorem agree_expect (hk : kind ≠ .string) (text : String) :
    c.Agree Eq (expect kind text) (expect kind text) := by
  refine agree_fronts rfl rfl (fun {t _ _} _ hr _ => ?_) fun hs _ _ => ?_
  · by_cases h : t.kind = kind
    · by_cases h' : t.text = text
      · simp only [expect, bind_run, get_run, h, h', ne_eq, not_true_eq_false, if_false, set_run]
        exact .ok rfl hr
      · simp only [expect, bind_run, get_run, h, h', ne_eq, not_true_eq_false, not_false_eq_true, if_false,
          if_true, throw_run]
        exact .fails (similar_refl _)
    · simp only [expect, bind_run, get_run, h, ne_eq, not_false_eq_true, if_true, throw_run]
      exact .fails (similar_refl _)
  · simp only [expect, bind_run, get_run, Ne.symm hk, ne_eq, not_false_eq_true, if_true, throw_run]
    exact .fails (similar_shown hs fun _ => rfl)

theorem agree_symbol (text : String) : c.Agree Eq (symbol text) (symbol text) :=
  agree_expect (by decide) text

theorem agree_keyword (text : String) : c.Agree Eq (keyword text) (keyword text) :=
  agree_expect (by decide) text

theorem agree_mark {text : String} {x : Parse γ} {y : Parse δ} (h : c.Agree S x y) :
    c.Agree S (symbol text >>= fun _ => x) (symbol text >>= fun _ => y) := agree_then (agree_symbol text) fun _ => h

theorem agree_word {text : String} {x : Parse γ} {y : Parse δ} (h : c.Agree S x y) :
    c.Agree S (keyword text >>= fun _ => x) (keyword text >>= fun _ => y) := agree_then (agree_keyword text) fun _ => h

theorem agree_op (text : String) : c.Agree Eq (expect .op text) (expect .op text) :=
  agree_expect (by decide) text

theorem agree_ident : c.Agree Eq ident ident :=
  agree_then (agree_expectKind (by decide)) fun _ => agree_pure rfl

/-- the braces that are open before the tokens are closed in them, unless nothing is put at the end -/
def Inside (c : Change) (depth : Nat) (ts : List Token) : Prop :=
  c.tail = [] ∨ ∃ d, Closes (d + depth) ts

theorem agree_open {x : Parse γ} {y : Parse δ}
    (h : ∀ ts ts', c.Near ts ts' → c.Inside 1 ts → c.Outcome S (x ts) (y ts')) :
    c.Agree S (symbol "\x7b" >>= fun _ => x) (symbol "\x7b" >>= fun _ => y) := by
  intro ts ts' hn
  refine outcome_bind (agree_symbol _ ts ts' hn) fun _ _ us us' hr _ hn' => h us us' hn' ?_
  obtain rfl := symbol_inv hr
  exact hn.closes.imp id fun ⟨d, hd⟩ => ⟨d, hd.push rfl⟩

/-! ## looking at the next token -/

end Change

/-- on a string of the given text, the reader fails and shows it -/
def Parse.Stumbles (w : String) (x : Parse α) : Prop :=
  ∀ ts, ∃ what, x (⟨.string, w⟩ :: ts) = .error (.expected what ⟨.string, w⟩)

theorem stumbles_expect {kind : Token.Kind} (hk : kind ≠ .string) (w text : String) :
    Stumbles w (expect kind text) := by
  intro ts
  refine ⟨kind.label, ?_⟩
  simp only [expect, bind_run, get_run, Ne.symm hk, ne_eq, not_false_eq_true, if_true, throw_run]

theorem stumbles_symbol (w text : String) : Stumbles w (symbol text) := stumbles_expect (by decide) w text

theorem stumbles_keyword (w text : String) : Stumbles w (keyword text) := stumbles_expect (by decide) w text

theorem stumbles_op (w text : String) : Stumbles w (expect .op text) := stumbles_expect (by decide) w text

theorem Parse.Stumbles.bind {w : String} {x : Parse α} (h : Stumbles w x) (f : α → Parse β) :
    Stumbles w (x >>= f) := by
  intro ts
  obtain ⟨what, hx⟩ := h ts
  exact ⟨what, bind_error hx f⟩

/-- a text that is looked for, with what is read where it is found -/
def Parse.Sure (w : String) (x : Parse α) : Prop := w ∈ steering ∨ w ∈ tested ∧ Stumbles w x

abbrev Looked (w : String) : Prop := w ∉ openers ∧ w ∈ steering ++ tested

theorem Looked.sure {w : String} (h : Looked w) {x : Parse α} (hx : Stumbles w x) : Sure w x :=
  (List.mem_append.mp h.2).imp id fun ht => ⟨ht, hx⟩

namespace Change

variable {c : Change} {R : α → β → Prop} {S : γ → δ → Prop} {kind : Token.Kind} {w : String} {x step : Parse α}
  {step' : Parse β} {f : α → Parse γ}

/-- how the two runs see a text: in the same way, or as the text of a changed string in one of them -/
inductive Seen (c : Change) (w : String) : List Token → List Token → Prop
  | same {ts ts' : List Token}
    (h : (ts.head?.map Token.text == some w) = (ts'.head?.map Token.text == some w)) : Seen c w ts ts'
  | first {s' : String} {ts ts' : List Token} (hw : w ∉ steering) (hs : c.swap w s') (hne : w ≠ s') :
    Seen c w (⟨.string, w⟩ :: ts) ts'
  | second {s : String} {ts ts' : List Token} (hw : w ∉ steering) (hs : c.swap s w) (hne : s ≠ w) :
    Seen c w ts (⟨.string, w⟩ :: ts')

theorem Near.seen {ts ts' : List Token} (hn : c.Near ts ts') (hw : w ∉ openers) : c.Seen w ts ts' := by
  cases hn.fronts with
  | done _ => exact .same rfl
  | @opens t us _ _ ho =>
    have hne : (some t.text == some w) = false := by
      rw [beq_eq_false_iff_ne]
      rintro h
      cases h
      exact hw ho
    exact .same hne.symm
  | same _ _ => exact .same rfl
  | @string s s' us us' hk _ =>
    by_cases he : s = s'
    · rw [he]
      exact .same rfl
    · obtain ⟨hi, hi'⟩ : s ∉ steering ∧ s' ∉ steering := (c.inert hk).resolve_left he
      by_cases hl : s = w
      · subst hl
        exact .first hi hk he
      · by_cases hr : s' = w
        · subst hr
          exact .second hi' hk he
        · have h : (some s == some w) = false := by simpa using hl
          have h' : (some s' == some w) = false := by simpa using hr
          exact .same (h.trans h'.symm)

theorem outcome_lax {s' : String} (hs : c.swap w s') (hne : w ≠ s') (hw : w ∉ steering) (hx : Sure w x)
    (ts : List Token) (r : Except ParseError (β × List Token)) : c.Outcome R (x (⟨.string, w⟩ :: ts)) r := by
  obtain ⟨ht, hx⟩ := hx.resolve_left hw
  obtain ⟨what, hr⟩ := hx ts
  rw [hr]
  exact .lax (.stumble hs hne ht (Or.inl rfl))

theorem outcome_trips {s : String} (hs : c.swap s w) (hne : s ≠ w) (hw : w ∉ steering) {y : Parse β}
    (hy : Sure w y) (ts : List Token) (r : Except ParseError (α × List Token)) :
    c.Outcome R r (y (⟨.string, w⟩ :: ts)) := by
  obtain ⟨ht, hy⟩ := hy.resolve_left hw
  obtain ⟨what, hr⟩ := hy ts
  rw [hr]
  exact .trips (.stumble hs hne ht (Or.inl rfl))

theorem agree_atText {f : Bool → Parse α} {f' : Bool → Parse β} (hw : w ∉ openers) (hs : Sure w (f true))
    (hs' : Sure w (f' true)) (ht : c.Agree R (f true) (f' true))
    (hf : c.Agree R (f false) (f' false)) : c.Agree R (atText w >>= f) (atText w >>= f') := by
  intro ts ts' hn
  rw [bind_ok (atText_run w ts), bind_ok (atText_run w ts')]
  cases hn.seen hw with
  | same h =>
    rw [h]
    cases (ts'.head?.map Token.text == some w) with
    | true => exact ht ts ts' hn
    | false => exact hf ts ts' hn
  | first hw hk hne =>
    simp only [List.head?_cons, Option.map_some, beq_self_eq_true]
    exact outcome_lax hk hne hw hs _ _
  | second hw hk hne =>
    simp only [List.head?_cons, Option.map_some, beq_self_eq_true]
    exact outcome_trips hk hne hw hs' _ _

/-- a part that is read if a token of a text is next, and begins with a token that is no string -/
theorem agree_ifText {text : String} (hk : kind ≠ .string) (hw : Looked w) {y : Parse α} {x' y' : Parse β}
    (hx : c.Agree R x x') (hy : c.Agree R y y') :
    c.Agree R (atText w >>= fun b => if b = true then expect kind text >>= fun _ => x else y)
      (atText w >>= fun b => if b = true then expect kind text >>= fun _ => x' else y') := by
  refine agree_atText hw.1 ?_ ?_ ?_ hy
  · exact hw.sure ((stumbles_expect hk w text).bind _)
  · exact hw.sure ((stumbles_expect hk w text).bind _)
  · exact agree_then (agree_expect hk text) fun _ => hx

theorem agree_optionalSymbol (hw : Looked w) : c.Agree Eq (optionalSymbol w) (optionalSymbol w) :=
  agree_atText hw.1 (hw.sure (stumbles_symbol w w)) (hw.sure (stumbles_symbol w w)) (agree_symbol w)
    (agree_pure rfl)

/-- whether a token of a kind other than a string is next is the same for both runs -/
theorem Near.head_eq {ts ts' : List Token} (h : c.Near ts ts') {text : String} (hk : kind ≠ .string)
    (hw : kind = .keyword → text ∉ openers) :
    (ts.head? == some ⟨kind, text⟩) = (ts'.head? == some ⟨kind, text⟩) := by
  cases h.fronts with
  | done _ => rfl
  | @opens t us _ hk' ho =>
    have hne : (some t == some (⟨kind, text⟩ : Token)) = false := by
      rw [beq_eq_false_iff_ne]
      rintro h
      cases h
      exact hw hk' ho
    exact hne.symm
  | same _ _ => rfl
  | string _ _ =>
    have hne : ∀ s : String, (some (⟨.string, s⟩ : Token) == some ⟨kind, text⟩) = false := by
      intro s
      rw [beq_eq_false_iff_ne]
      rintro h
      cases h
      exact hk rfl
    rw [List.head?_cons, List.head?_cons, hne, hne]

theorem agree_atToken {text : String} {f : Bool → Parse α} {f' : Bool → Parse β} (hk : kind ≠ .string)
    (hw : kind = .keyword → text ∉ openers) (h : ∀ b, c.Agree R (f b) (f' b)) :
    c.Agree R (atToken kind text >>= f) (atToken kind text >>= f') := by
  intro ts ts' hn
  rw [bind_ok (atToken_run kind text ts), bind_ok (atToken_run kind text ts'), hn.head_eq hk hw]
  exact h _ ts ts' hn

/-- whether a token of a kind is next is the same for both runs, except for a reserved word -/
theorem Near.kind_eq {ts ts' : List Token} (h : c.Near ts ts') (hk : kind ≠ .keyword) :
    (ts.head?.map Token.kind == some kind) = (ts'.head?.map Token.kind == some kind) := by
  cases h.fronts with
  | done _ => rfl
  | @opens t us _ hk' _ =>
    have hne : (some t.kind == some kind) = false := by
      rw [beq_eq_false_iff_ne]
      rintro h
      cases h
      exact hk hk'
    exact hne.symm
  | same _ _ => rfl
  | string _ _ => rfl

theorem agree_ifKind (hk : kind ≠ .keyword) {y : Parse α} {x' y' : Parse β} (hx : c.Agree R x x')
    (hy : c.Agree R y y') :
    c.Agree R (peek >>= fun o => if (o.map Token.kind == some kind) = true then x else y)
      (peek >>= fun o => if (o.map Token.kind == some kind) = true then x' else y') := by
  intro ts ts' hn
  rw [bind_ok (peek_run ts), bind_ok (peek_run ts'), hn.kind_eq hk]
  exact agree_ite hx hy ts ts' hn

theorem agree_unlessKind (hk : kind ≠ .keyword) (e : ParseError) {x : Unit → Parse α} {x' : Unit → Parse β}
    (hx : c.Agree R (x ()) (x' ())) :
    c.Agree R (peek >>= fun o => if (o.map Token.kind != some kind) = true then throw e >>= x else x ())
      (peek >>= fun o => if (o.map Token.kind != some kind) = true then throw e >>= x' else x' ()) := by
  intro ts ts' hn
  rw [bind_ok (peek_run ts), bind_ok (peek_run ts'), bne, bne, hn.kind_eq hk]
  exact agree_ite (agree_then (agree_throw e) fun _ => hx) hx ts ts' hn

/-- an argument with its name, if a name and the mark after it are next -/
theorem agree_named {x : String → Parse α} {x' : String → Parse β} {y : Parse α} {y' : Parse β}
    (hx : ∀ name, c.Agree R (x name) (x' name)) (hy : c.Agree R y y') :
    c.Agree R
      (peek >>= fun o => peekSecond >>= fun p =>
        if (o.map Token.kind == some .ident && p.map Token.text == some "=") = true then
          ident >>= fun name => expect .op "=" >>= fun _ => x name else y)
      (peek >>= fun o => peekSecond >>= fun p =>
        if (o.map Token.kind == some .ident && p.map Token.text == some "=") = true then
          ident >>= fun name => expect .op "=" >>= fun _ => x' name else y') := by
  have hread : c.Agree R (ident >>= fun name => expect .op "=" >>= fun _ => x name)
      (ident >>= fun name => expect .op "=" >>= fun _ => x' name) :=
    agree_then agree_ident fun name => agree_then (agree_op _) fun _ => hx name
  intro ts ts' hn
  rw [bind_ok (peek_run ts), bind_ok (peek_run ts'), bind_ok (peekSecond_run ts),
    bind_ok (peekSecond_run ts')]
  generalize hb : (ts.head?.map Token.kind == some .ident && ts.tail.head?.map Token.text == some "=") = b
  generalize hb' :
    (ts'.head?.map Token.kind == some .ident && ts'.tail.head?.map Token.text == some "=") = b'
  by_cases he : b = b'
  · rw [he]
    exact agree_ite hread hy ts ts' hn
  -- one run sees a name and the mark: the name is the same token for both, and the mark a changed string
  cases hn.fronts with
  | done _ => exact absurd (hb.symm.trans hb') he
  | opens _ hk _ =>
    rw [List.head?_cons, Option.map_some, hk] at hb'
    exact absurd (hb.symm.trans hb') he
  | string _ _ => exact absurd (hb.symm.trans hb') he
  | @same t us us' _ hr =>
    obtain ⟨kind, name⟩ := t
    have hkind : kind = .ident := by
      by_contra hne
      have hf : (some kind == some Token.Kind.ident) = false := by simpa using hne
      rw [List.head?_cons, Option.map_some, hf] at hb hb'
      exact he (hb.symm.trans hb')
    subst hkind
    simp only [List.head?_cons, Option.map_some, beq_self_eq_true, Bool.true_and, List.tail_cons] at hb hb'
    cases hr.seen (w := "=") (by decide) with
    | same h => exact absurd (hb.symm.trans (h.trans hb')) he
    | first hw hs hne =>
      rw [List.head?_cons, Option.map_some, beq_self_eq_true] at hb
      rw [← hb, if_pos rfl, bind_ok (ident_run name _)]
      exact outcome_lax hs hne hw (Or.inr ⟨by decide, (stumbles_op _ _).bind _⟩) _ _
    | second hw hs hne =>
      rw [List.head?_cons, Option.map_some, beq_self_eq_true] at hb'
      rw [← hb', if_pos (c := true = true) rfl, bind_ok (ident_run name (_ :: _))]
      exact outcome_trips hs hne hw (Or.inr ⟨by decide, (stumbles_op _ _).bind _⟩) _ _

/-! ## loops -/

/-- a list up to a closing mark, and the mark -/
theorem agree_until {close : String} (hw : Looked close) (hstep : c.Agree R step step') {k : List α → Parse γ}
    {k' : List β → Parse δ} (hk : ∀ as bs, Forall₂ R as bs → c.Agree S (k as) (k' bs)) :
    c.Agree S (untilText close step >>= fun as => symbol close >>= fun _ => k as)
      (untilText close step' >>= fun bs => symbol close >>= fun _ => k' bs) := by
  have hloop : ∀ (fuel fuel' : Nat) (k : List α → Parse γ) (k' : List β → Parse δ), fuel ≤ fuel' →
      (∀ as bs, Forall₂ R as bs → c.Agree S (k as) (k' bs)) →
      c.Agree S (untilTextFrom close step fuel >>= fun as => symbol close >>= fun _ => k as)
        (untilTextFrom close step' fuel' >>= fun bs => symbol close >>= fun _ => k' bs) := by
    intro fuel
    induction fuel with
    | zero => exact fun _ _ _ _ _ _ _ _ => .lax .deep
    | succ fuel ih =>
      intro fuel' k k' hle hk
      obtain ⟨fuel', rfl⟩ : ∃ m, fuel' = m + 1 := ⟨fuel' - 1, by omega⟩
      simp only [untilTextFrom, bind_assoc]
      refine agree_atText hw.1 ?_ ?_ ?_ ?_
      · exact hw.sure ((stumbles_symbol close close).bind fun _ => k [])
      · exact hw.sure ((stumbles_symbol close close).bind fun _ => k' [])
      · exact agree_then (agree_symbol close) fun _ => hk _ _ .nil
      · simp only [Bool.false_eq_true, if_false, bind_assoc, pure_bind]
        refine agree_bind hstep fun a b hab => ?_
        exact ih fuel' (fun as => k (a :: as)) (fun bs => k' (b :: bs)) (by omega) fun as bs h =>
          hk _ _ (.cons hab h)
  simp only [untilText, bind_assoc]
  exact agree_bounded fun fuel fuel' hle => hloop fuel fuel' k k' hle hk

theorem agree_while {more : Parse Bool}
    (h : ∀ {x : Parse (List α)} {x' : Parse (List β)}, c.Agree (Forall₂ R) x x' →
      c.Agree (Forall₂ R) (more >>= fun b => if b = true then step >>= fun a => x >>= fun as => pure (a :: as)
        else pure []) (more >>= fun b => if b = true then step' >>= fun a => x' >>= fun as => pure (a :: as)
        else pure [])) : c.Agree (Forall₂ R) (whileNext more step) (whileNext more step') := by
  have hloop : ∀ fuel fuel', fuel ≤ fuel' →
      c.Agree (Forall₂ R) (whileFrom more step fuel) (whileFrom more step' fuel') := by
    intro fuel
    induction fuel with
    | zero => exact fun _ _ _ _ _ => .lax .deep
    | succ fuel ih =>
      intro fuel' hle
      obtain ⟨fuel', rfl⟩ : ∃ m, fuel' = m + 1 := ⟨fuel' - 1, by omega⟩
      exact h (ih fuel' (by omega))
  exact agree_bounded hloop

theorem agree_whileSymbol {text : String} (hstep : c.Agree R step step') :
    c.Agree (Forall₂ R) (whileNext (atToken .symbol text) step) (whileNext (atToken .symbol text) step') := by
  refine agree_while fun hx => agree_atToken (by decide) nofun fun b => ?_
  cases b with
  | true => exact agree_bind hstep fun a b hab => agree_bind hx fun as bs h => agree_pure (.cons hab h)
  | false => exact agree_pure .nil

theorem agree_whileText (hw : Looked w) (ht : Stumbles w step) (ht' : Stumbles w step')
    (hstep : c.Agree R step step') :
    c.Agree (Forall₂ R) (whileNext (atText w) step) (whileNext (atText w) step') := by
  refine agree_while fun hx => agree_atText hw.1 ?_ ?_ ?_ (agree_pure .nil)
  · exact hw.sure (ht.bind _)
  · exact hw.sure (ht'.bind _)
  · exact agree_bind hstep fun a b hab => agree_bind hx fun as bs h => agree_pure (.cons hab h)

end Change

end BraceScript
