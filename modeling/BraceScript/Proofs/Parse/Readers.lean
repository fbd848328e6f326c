import BraceScript.Proofs.Parse.Ledger
import BraceScript.Proofs.Parse.Reader
import BraceScript.Proofs.Parse.RegularTree
import Mathlib.Data.List.Infix

/-!
# What a reader does

Each reader has one specification, which says what it takes, what it opens and closes, what it gives and why it
fails. A reader only takes tokens off the front, and every reader of a tree takes one before it calls another
reader, or itself. So the number of tokens bounds both the nesting and the loops, and what is left to go wrong is
in the tokens.

* `ParseError.Founded`   an error with its cause in the tokens; the bound on the nesting is none
* `Parse.Ended`          how a reader ends on a list of tokens
* `Parse.Meets`          a reader ends so on all lists below a length that an account admits
* `meets_next`, `meets_open`, `meets_untilText`, ...   readers put together from smaller ones
* `grammar_meets`        the readers of every depth
-/

namespace BraceScript

open Parse

/-- the cause of an error is in the tokens. A number fails only by the text of a number token. -/
def ParseError.Founded (ts : List Token) : ParseError → Prop
  | .tooDeep => False
  | .badInteger text => ⟨.number, text⟩ ∈ ts ∧ readInt text = .error .malformed
  | .longInteger digits => ∃ text, ⟨.number, text⟩ ∈ ts ∧ readInt text = .error (.tooLong digits)
  | .badNumber text => ∃ whole digits, ⟨.number, digits⟩ ∈ ts ∧
      text = numeralText whole ++ "." ++ digits ∧ readDouble? text = none
  | _ => True

theorem ParseError.Founded.mono {ts us : List Token} (h : ts ⊆ us) {e : ParseError}
    (he : e.Founded ts) : e.Founded us := by
  cases e with
  | tooDeep => exact he
  | badInteger text => exact ⟨h he.1, he.2⟩
  | longInteger digits =>
    obtain ⟨text, hm, hr⟩ := he
    exact ⟨text, h hm, hr⟩
  | badNumber text =>
    obtain ⟨whole, digits, hm, ht⟩ := he
    exact ⟨whole, digits, h hm, ht⟩
  | _ => trivial

/-- an account in which nothing counts -/
def Ledger.free : Ledger Unit where
  settles _ _ := True
  enter _ s := s
  opens _ _ _ _ := trivial
  closes _ _ _ _ := trivial
  separates _ _ _ _ := trivial
  passes _ _ _ _ _ _ := trivial
  embeds _ := trivial
  handles _ := trivial

def ClassDecl.Admitted {σ : Type} (A : Ledger σ) (c : ClassDecl Node) : Prop :=
  ∀ d ∈ c.classes, A.admits ⟨.ident, d.name⟩

theorem mem_classesIn {α : Type} {cs : List (ClassDecl α)} {d : ClassDecl α} :
    d ∈ classesIn cs ↔ ∃ c ∈ cs, d ∈ c.classes := by
  induction cs with
  | nil => simp [classesIn]
  | cons c cs ih => rw [classesIn, List.mem_append, ih, List.exists_mem_cons_iff]

namespace Parse

variable {α β σ : Type} {ts us rest : List Token} {e : ParseError} {x : Parse α} {f : α → Parse β}

/-! ## taking tokens -/

/-- what is left of a list after at least `k` tokens -/
def Left (k : Nat) (ts rest : List Token) : Prop := rest <:+ ts ∧ rest.length + k ≤ ts.length

theorem Left.refl (ts : List Token) : Left 0 ts ts := ⟨List.suffix_refl ts, Nat.le_refl _⟩

theorem Left.tail (t : Token) (ts : List Token) : Left 1 (t :: ts) ts :=
  ⟨List.suffix_cons t ts, Nat.le_refl _⟩

theorem Left.trans {j k : Nat} {vs : List Token} (h : Left j ts us) (h' : Left k us vs) :
    Left (j + k) ts vs := by
  obtain ⟨hs, hl⟩ := h
  obtain ⟨hs', hl'⟩ := h'
  exact ⟨hs'.trans hs, by omega⟩

theorem Left.weaken {j k : Nat} (h : Left j ts us) (hk : k ≤ j) : Left k ts us :=
  ⟨h.1, by have := h.2; omega⟩

/-- a list of less than `n` tokens, which the account admits -/
structure Within (A : Ledger σ) (n : Nat) (ts : List Token) : Prop where
  lt : ts.length < n
  admits : ∀ t ∈ ts, A.admits t

theorem Within.left {A : Ledger σ} {k n : Nat} (h : Within A n ts) (hl : Left k ts us) : Within A (n - k) us :=
  ⟨by have := h.lt; have := hl.2; omega, fun t ht => h.admits t (hl.1.subset ht)⟩

theorem Within.below {A : Ledger σ} {m n : Nat} (h : Within A m ts) (hm : m ≤ n) : Within A n ts :=
  ⟨Nat.lt_of_lt_of_le h.lt hm, h.admits⟩

theorem Within.own {A : Ledger σ} {n : Nat} (h : Within A n ts) : Within A (ts.length + 1) ts :=
  ⟨Nat.lt_succ_self _, h.admits⟩

theorem Within.free {n : Nat} (h : ts.length < n) : Within Ledger.free n ts := ⟨h, fun _ _ => trivial⟩

/-- how a reader ends on a list. It leaves an end of the list and gives something with a property, and what it
takes closes the given bracket, if there is one, and opens nothing that it does not close; or it fails with a
cause in the list. -/
inductive Ended (A : Ledger σ) (o : Option Bracket) (k : α → Nat) (P : α → Prop) (ts : List Token) :
    Except ParseError (α × List Token) → Prop
  | ok {a : α} {rest : List Token} (hl : Left (k a) ts rest) (ha : P a)
    (hs : ∀ s, A.settles s rest → A.settles (A.under o s) ts) : Ended A o k P ts (.ok (a, rest))
  | error {e : ParseError} (h : e.Founded ts) : Ended A o k P ts (.error e)

/-- on lists of less than `n` tokens, which the account admits, the reader ends so; it takes at least as many tokens
as its result says -/
def MeetsBy (A : Ledger σ) (o : Option Bracket) (k : α → Nat) (n : Nat) (P : α → Prop) (x : Parse α) : Prop :=
  ∀ ts : List Token, Within A n ts → Ended A o k P ts (x ts)

/-- the reader ends so, and takes at least `k` tokens -/
def Meets (A : Ledger σ) (o : Option Bracket) (k n : Nat) (P : α → Prop) (x : Parse α) : Prop :=
  MeetsBy A o (fun _ => k) n P x

section
variable {A : Ledger σ} {o : Option Bracket} {j k m n : Nat} {P : α → Prop} {Q : β → Prop}

/-- what a reader does after the first tokens are taken -/
theorem Ended.after {o' : Option Bracket} {c d : α → Nat} {r : Except ParseError (α × List Token)}
    (h : Ended A o c P us r) (hl : Left k ts us) (hd : ∀ a, d a ≤ k + c a)
    (hs : ∀ s, A.settles (A.under o s) us → A.settles (A.under o' s) ts) : Ended A o' d P ts r := by
  cases h with
  | ok hl' ha hs' => exact .ok ((hl.trans hl').weaken (hd _)) ha fun s h => hs s (hs' s h)
  | error he => exact .error (he.mono hl.1.subset)

theorem meetsBy_bind {c : α → Nat} {d : β → Nat} (hx : MeetsBy A none c m P x)
    (hf : ∀ a, P a → MeetsBy A o (fun b => d b - c a) (m - c a) Q (f a)) : MeetsBy A o d m Q (x >>= f) := by
  intro ts hn
  have h := hx ts hn
  cases hr : x ts with
  | error e =>
    rw [hr] at h
    rw [bind_error hr]
    cases h with
    | error he => exact .error he
  | ok p =>
    obtain ⟨a, us⟩ := p
    rw [hr] at h
    rw [bind_ok hr]
    cases h with
    | ok hl ha hs =>
      exact (hf a ha us (hn.left hl)).after hl (fun b => by omega) fun s => hs _

theorem Meets.weaken (h : Meets A o k n P x) : Meets A o 0 n P x :=
  fun ts hn => (h ts hn).after (Left.refl ts) (fun _ => Nat.zero_le _) fun _ => id

theorem Meets.below (h : Meets A o k n P x) (hm : m ≤ n) : Meets A o k m P x :=
  fun ts ht => h ts (ht.below hm)

/-- a form that is not the first step of a reader -/
theorem Meets.later (h : Meets A o k (n + 1) P x) : Meets A o 0 n P x := (h.below (Nat.le_succ n)).weaken

theorem Meets.imp {Q : α → Prop} (h : Meets A o k n P x) (hq : ∀ a, P a → Q a) : Meets A o k n Q x := by
  intro ts hn
  have hr := h ts hn
  generalize x ts = r at hr ⊢
  cases hr with
  | ok hl ha hs => exact .ok hl (hq _ ha) hs
  | error he => exact .error he

theorem meets_pure {a : α} (h : P a) : Meets A none 0 n P (pure a) :=
  fun ts _ => .ok (Left.refl ts) h fun _ => id

theorem meets_throw (h : ∀ ts, e.Founded ts) : Meets A o k n P (throw e : Parse α) :=
  fun ts _ => .error (h ts)

/-- the first step of a reader takes a token, so the bound is lower after it -/
theorem meets_first (hx : Meets A none 1 (n + 1) P x) (hf : ∀ a, P a → Meets A o 0 n Q (f a)) :
    Meets A o 1 (n + 1) Q (x >>= f) :=
  meetsBy_bind hx hf

/-- a first step whose result does not matter -/
theorem meets_start (hx : Meets A none 1 (n + 1) P x) (hf : ∀ a, Meets A o 0 n Q (f a)) :
    Meets A o 1 (n + 1) Q (x >>= f) :=
  meets_first hx fun a _ => hf a

/-- a step that takes a token where the bound need not be lower after it -/
theorem meets_one (hx : Meets A none 1 n P x) (hf : ∀ a, P a → Meets A o 0 n Q (f a)) :
    Meets A o 1 n Q (x >>= f) :=
  meetsBy_bind hx fun a ha => (hf a ha).below (Nat.sub_le n 1)

/-- a further step -/
theorem meets_next (hx : Meets A none k n P x) (hf : ∀ a, P a → Meets A o 0 n Q (f a)) :
    Meets A o 0 n Q (x >>= f) :=
  meetsBy_bind hx.weaken hf

/-- a further step whose result does not matter -/
theorem meets_skip (hx : Meets A none k n P x) (hf : ∀ a, Meets A o 0 n Q (f a)) :
    Meets A o 0 n Q (x >>= f) :=
  meets_next hx fun a _ => hf a

theorem meets_look {d : β → Nat} (hx : ∀ ts, ∃ a, x ts = .ok (a, ts)) (hf : ∀ a, MeetsBy A o d n Q (f a)) :
    MeetsBy A o d n Q (x >>= f) := by
  intro ts hn
  obtain ⟨a, ha⟩ := hx ts
  rw [bind_ok ha]
  exact hf a ts hn

theorem meets_peek {f : Option Token → Parse β} (hf : ∀ a, Meets A o k n Q (f a)) : Meets A o k n Q (peek >>= f) :=
  meets_look (fun _ => ⟨_, rfl⟩) hf

theorem meets_atText {text : String} {f : Bool → Parse β} (hf : ∀ a, Meets A o k n Q (f a)) :
    Meets A o k n Q (atText text >>= f) :=
  meets_look (fun _ => ⟨_, rfl⟩) hf

theorem meets_atToken {kind : Token.Kind} {text : String} {f : Bool → Parse β}
    (hf : ∀ a, Meets A o k n Q (f a)) : Meets A o k n Q (atToken kind text >>= f) :=
  meets_look (fun _ => ⟨_, rfl⟩) hf

theorem meets_ite {c : Prop} [Decidable c] {y : Parse α} {d : α → Nat} (hx : MeetsBy A o d n P x)
    (hy : MeetsBy A o d n P y) : MeetsBy A o d n P (if c then x else y) := by
  split
  · exact hx
  · exact hy

/-- a last step that only puts the result into a form -/
theorem Ended.map {g : α → β} (h : Ended A o (fun _ => k) P ts (x ts)) (hq : ∀ a, P a → Q (g a)) :
    Ended A o (fun _ => k) Q ts ((x >>= fun a => pure (g a)) ts) := by
  rw [bind_run]
  generalize x ts = r at h ⊢
  cases h with
  | ok hl ha hs => exact .ok hl (hq _ ha) hs
  | error he => exact .error he

/-! ## taking one token -/

theorem expectKind_cases (kind : Token.Kind) (ts : List Token) :
    (∃ t us, ts = t :: us ∧ t.kind = kind ∧ expectKind kind ts = .ok (t, us)) ∨
      ∃ e, expectKind kind ts = .error e ∧ e.Founded ts := by
  cases ts with
  | nil => exact Or.inr ⟨_, rfl, trivial⟩
  | cons t us =>
    by_cases h : t.kind = kind
    · refine Or.inl ⟨t, us, rfl, h, ?_⟩
      simp only [expectKind, bind_run, get_run, h, ne_eq, not_true_eq_false, if_false, set_run, pure_run]
    · refine Or.inr ⟨.expected kind.label t, ?_, trivial⟩
      simp only [expectKind, bind_run, get_run, h, ne_eq, not_false_eq_true, if_true, throw_run]

theorem expect_cases (kind : Token.Kind) (text : String) (ts : List Token) :
    (∃ us, ts = ⟨kind, text⟩ :: us ∧ expect kind text ts = .ok ((), us)) ∨
      ∃ e, expect kind text ts = .error e ∧ e.Founded ts := by
  cases ts with
  | nil => exact Or.inr ⟨_, rfl, trivial⟩
  | cons t us =>
    obtain ⟨k, s⟩ := t
    by_cases h : k = kind
    · by_cases h' : s = text
      · subst h h'
        exact Or.inl ⟨us, rfl, expect_run k s us⟩
      · refine Or.inr ⟨.expected text ⟨k, s⟩, ?_, trivial⟩
        simp only [expect, bind_run, get_run, h, h', ne_eq, not_true_eq_false, not_false_eq_true, if_false,
          if_true, throw_run]
    · refine Or.inr ⟨.expected kind.label ⟨k, s⟩, ?_, trivial⟩
      simp only [expect, bind_run, get_run, h, ne_eq, not_false_eq_true, if_true, throw_run]

/-- a token that is taken, and what follows it -/
theorem ended_expect {o' : Option Bracket} {kind : Token.Kind} {text : String} {f : Unit → Parse β}
    (hf : Meets A o 0 n Q (f ())) (hn : Within A (n + 1) ts)
    (hs : ∀ s us, A.settles (A.under o s) us → A.settles (A.under o' s) (⟨kind, text⟩ :: us)) :
    Ended A o' (fun _ => 1) Q ts ((expect kind text >>= f) ts) := by
  obtain ⟨us, rfl, hr⟩ | ⟨e, hr, he⟩ := expect_cases kind text ts
  · rw [bind_ok hr]
    exact (hf us (hn.left (Left.tail _ us))).after (Left.tail _ us) (fun _ => Nat.le_refl _) fun s => hs s us
  · rw [bind_error hr]
    exact .error he

theorem meets_expectKind {kind : Token.Kind} (hs : kind ≠ .symbol) (hk : kind ≠ .keyword) :
    Meets A none 1 n (fun t => t.kind = kind ∧ A.admits t) (expectKind kind) := by
  intro ts hn
  obtain ⟨t, us, rfl, rfl, hr⟩ | ⟨e, hr, he⟩ := expectKind_cases kind ts
  · rw [hr]
    refine .ok (Left.tail t us) ⟨rfl, hn.admits t List.mem_cons_self⟩ fun s h => ?_
    exact A.passes hs (fun h => hk (congrArg Token.kind h)) (fun h => hk (congrArg Token.kind h)) h
  · rw [hr]
    exact .error he

/-- a token whose kind and text leave the account as it is -/
theorem meets_expect {kind : Token.Kind} {text : String}
    (hs : ∀ s us, A.settles s us → A.settles s (⟨kind, text⟩ :: us)) :
    Meets A none 1 n (fun _ => True) (expect kind text) := by
  intro ts hn
  have h : Ended A none (fun _ => 1) (fun _ => True) ts ((expect kind text >>= pure) ts) :=
    ended_expect (meets_pure trivial) (hn.below (Nat.le_succ n)) hs
  rwa [bind_pure] at h

theorem meets_op (text : String) : Meets A none 1 n (fun _ => True) (expect .op text) :=
  meets_expect fun _ _ => A.passes (by simp) (by simp) (by simp)

theorem meets_keyword {text : String} (hf : text ≠ "ffi") (hc : text ≠ "catch") :
    Meets A none 1 n (fun _ => True) (keyword text) :=
  meets_expect fun _ _ => A.passes (by simp) (by simp [hf]) (by simp [hc])

theorem meets_ident : Meets A none 1 n (fun name => A.admits ⟨.ident, name⟩) ident := by
  refine meets_one (meets_expectKind (by simp) (by simp)) fun t ht => meets_pure ?_
  rw [← ht.1]
  exact ht.2

theorem meets_mark {text : String} (h : text ∈ separators) : Meets A none 1 n (fun _ => True) (symbol text) :=
  meets_expect fun _ _ => A.separates h

theorem meets_optionalSymbol {text : String} (h : text ∈ separators) :
    Meets A none 0 n (fun _ => True) (optionalSymbol text) :=
  meets_atText fun _ => meets_ite (meets_mark h).weaken (meets_pure trivial)

/-- an opening bracket; what follows has to close it -/
theorem meets_open (b : Bracket) {f : Unit → Parse β} (hf : ∀ u, Meets A (some b) 0 n Q (f u)) :
    Meets A none 1 (n + 1) Q (symbol b.opening >>= f) :=
  fun _ hn => ended_expect (hf ()) hn fun _ _ => A.opens b

theorem meets_close (b : Bracket) {f : Unit → Parse β} (hf : ∀ u, Meets A none 0 n Q (f u)) :
    Meets A (some b) 0 n Q (symbol b.closing >>= f) :=
  Meets.later fun _ hn => ended_expect (hf ()) hn fun _ _ => A.closes b

/-! ## loops -/

theorem meets_loop {loop : Nat → Parse α} (hl : ∀ fuel ≤ n, Meets A none 0 fuel P (loop fuel))
    (hf : ∀ a, P a → Meets A o 0 n Q (f a)) :
    Meets A o 0 n Q (get >>= fun ts => loop (ts.length + 1) >>= f) := by
  have hx : Meets A none 0 n P (get >>= fun ts => loop (ts.length + 1)) := fun ts hn =>
    hl (ts.length + 1) hn.lt ts hn.own
  rw [← bind_assoc]
  exact meets_next hx hf

theorem meets_whileNext {more : Parse Bool} {step : Parse α} (hm : ∀ ts, ∃ b, more ts = .ok (b, ts))
    (hs : Meets A none 1 n P step) : Meets A none 0 n (∀ a ∈ ·, P a) (whileNext more step) := by
  have hl : ∀ fuel ≤ n, Meets A none 0 fuel (∀ a ∈ ·, P a) (whileFrom more step fuel) := by
    intro fuel hn
    induction fuel with
    | zero => exact nofun
    | succ fuel ih =>
      refine meets_look hm fun b => meets_ite ?_ (meets_pure (List.forall_mem_nil P))
      refine (meets_first (hs.below hn) fun a ha => ?_).weaken
      exact meets_next (ih (by omega)) fun as has => meets_pure (List.forall_mem_cons.mpr ⟨ha, has⟩)
  exact fun ts hn => hl (ts.length + 1) hn.lt ts hn.own

theorem meets_untilText (close : String) {step : Parse α} (hs : Meets A none 1 n P step) :
    Meets A none 0 n (∀ a ∈ ·, P a) (untilText close step) := by
  have hl : ∀ fuel ≤ n, Meets A none 0 fuel (∀ a ∈ ·, P a) (untilTextFrom close step fuel) := by
    intro fuel hn
    induction fuel with
    | zero => exact nofun
    | succ fuel ih =>
      refine meets_atText fun b => meets_ite (meets_pure (List.forall_mem_nil P)) ?_
      refine (meets_first (hs.below hn) fun a ha => ?_).weaken
      exact meets_next (ih (by omega)) fun as has => meets_pure (List.forall_mem_cons.mpr ⟨ha, has⟩)
  exact fun ts hn => hl (ts.length + 1) hn.lt ts hn.own

end

/-! ## readers of expressions -/

/-- the readers that a reader calls; each takes a token, and a block may be empty -/
structure Grammar.Meets (A : Ledger σ) (n : Nat) (g : Grammar) : Prop where
  expr (least : Nat) : Parse.Meets A none 1 n Node.Regular (g.expr least)
  primary : Parse.Meets A none 1 n Node.Regular g.primary
  block : Parse.Meets A none 0 n (∀ t ∈ blockSteps ·, t.Regular) g.block
  classDecl : Parse.Meets A none 1 n (fun c => (Node.classDef c).Regular ∧ c.Admitted A) g.classDecl

section
variable {A : Ledger σ} {n : Nat} {g : Grammar} {node : Node} (hg : g.Meets A n)
include hg

theorem meets_braces : Meets A none 1 (n + 1) (∀ t ∈ blockSteps ·, t.Regular) (braces g) :=
  meets_open .brace fun _ => meets_next hg.block fun _ hb => meets_close .brace fun _ => meets_pure hb

theorem meets_param : Meets A none 1 (n + 1) (fun p => ∀ t ∈ p.tree?, t.Regular) (param g) := by
  have hm : Meets A none 0 n (fun _ => True) (optionalSymbol ",") := meets_optionalSymbol (by decide)
  unfold param
  simp only [pure_bind]
  refine meets_atText fun _ => meets_atText fun _ => meets_ite ?_ (meets_ite ?_ ?_)
  · exact meets_start (meets_op _) fun _ => meets_skip meets_ident fun _ => meets_skip hm fun _ => meets_pure nofun
  · exact meets_start (meets_op _) fun _ => meets_skip meets_ident fun _ => meets_skip hm fun _ => meets_pure nofun
  · refine meets_start meets_ident fun name => meets_atText fun b => meets_ite ?_ ?_
    · exact meets_skip (meets_op _) fun _ => meets_next (hg.expr 0) fun _ he => meets_skip hm fun _ =>
        meets_pure (by simpa [Param.tree?] using he)
    · exact meets_skip hm fun _ => meets_pure nofun

theorem meets_params : Meets A none 1 (n + 1) (fun ps => ∀ t ∈ paramDefaults ps, t.Regular) (params g) := by
  refine meets_open .paren fun _ =>
    meets_next (meets_untilText _ ((meets_param hg).below (Nat.le_succ n))) fun ps hps => ?_
  refine meets_close .paren fun _ => meets_pure fun t ht => ?_
  obtain ⟨q, hq, hd⟩ := List.mem_filterMap.mp ht
  exact hps q hq t hd

theorem meets_unlessAt (stops : List String) :
    Meets A none 0 n (fun o => ∀ t ∈ o.toList, t.Regular) (unlessAt g stops) := by
  have he : Meets A none 0 n (fun o : Option Node => ∀ t ∈ o.toList, t.Regular) (do return some (← g.expr 0)) :=
    meets_next (hg.expr 0) fun _ he => meets_pure (List.forall_mem_singleton.mpr he)
  refine meets_peek fun o => ?_
  split
  · exact meets_ite (meets_pure nofun) he
  · exact he

theorem meets_subscriptStep : Meets A none 0 n (fun o => ∀ t ∈ o.toList, t.Regular) (subscriptStep g) :=
  meets_atText fun _ => meets_ite (meets_skip (meets_mark (by decide)) fun _ => meets_unlessAt hg _) (meets_pure nofun)

theorem meets_subscript : Meets A none 1 (n + 1) (fun r => ∀ t ∈ r.trees, t.Regular) (subscript g) := by
  unfold subscript
  simp only [pure_bind]
  refine meets_open .square fun _ => meets_next (meets_unlessAt hg _) fun start hs => ?_
  refine meets_atText fun _ => meets_ite ?_ (meets_close .square fun _ => meets_pure ?_)
  · refine meets_skip (meets_mark (by decide)) fun _ => meets_next (meets_unlessAt hg _) fun stop hstop => ?_
    refine meets_next (meets_subscriptStep hg) fun step hstep => meets_close .square fun _ => meets_pure ?_
    rw [Subscript.trees, List.forall_mem_append, List.forall_mem_append]
    exact ⟨⟨hs, hstop⟩, hstep⟩
  · cases start with
    | none => exact nofun
    | some e => exact hs

theorem meets_argument : Meets A none 1 n (fun a => a.tree.Regular) (argument g) := by
  have he : ∀ f : Node → Argument, (∀ e, e.Regular → (f e).tree.Regular) →
      Meets A none 1 n (fun a => a.tree.Regular) (do
        let e ← g.expr 0
        optionalSymbol ","
        return f e) := fun f hf =>
    meets_one (hg.expr 0) fun e he => meets_skip (meets_optionalSymbol (by decide)) fun _ => meets_pure (hf e he)
  have hi : ∀ {e new : Node}, e.Regular → new.standsAlone = true → new.parts = [e] → new.Regular :=
    fun he hq hp => .mk hq (hp ▸ List.forall_mem_singleton.mpr he)
  unfold argument
  simp only [pure_bind]
  refine meets_atText fun _ => meets_atText fun _ => meets_peek fun _ => meets_look (fun _ => ⟨_, rfl⟩) fun _ => ?_
  refine meets_ite ?_ (meets_ite ?_ (meets_ite ?_ (he _ fun _ => id)))
  · exact meets_one (meets_op _) fun _ _ => (he _ fun _ h => hi h rfl rfl).weaken
  · exact meets_one (meets_op _) fun _ _ => (he _ fun _ h => hi h rfl rfl).weaken
  · exact meets_one meets_ident fun _ _ => meets_skip (meets_op _) fun _ => (he _ fun _ => id).weaken

theorem meets_arguments (hn : node.Regular) : Meets A none 1 (n + 1) Node.Regular (arguments g node) := by
  refine meets_open .paren fun _ => meets_next (meets_untilText _ (meets_argument hg)) fun items hi => ?_
  have ha : ∀ t ∈ items.map Argument.tree, t.Regular := List.forall_mem_map.mpr hi
  refine meets_close .paren fun _ => meets_pure (.of_inner rfl (List.append_nil _) ?_)
  show ∀ t ∈ node :: (positionals items ++ (nameds [] items).map Prod.snd), t.Regular
  rw [List.forall_mem_cons, List.forall_mem_append, List.forall_mem_map]
  refine ⟨hn, fun t ht => ha t (mem_positionals ht), fun p hp => ?_⟩
  rcases mem_nameds hp with hp | hp
  · exact ha p.2 hp
  · cases hp

omit hg in
theorem regular_getAttr (hn : node.Regular) (attr : String) : (Node.getAttr node attr).Regular :=
  .of_inner rfl rfl (List.forall_mem_singleton.mpr hn)

omit hg in
theorem meets_attributesFrom (fuel : Nat) (hn : node.Regular) :
    Meets A none 0 fuel Node.Regular (attributesFrom fuel node) := by
  induction fuel generalizing node with
  | zero => exact nofun
  | succ fuel ih =>
    refine meets_atToken fun _ => meets_ite ?_ (meets_pure hn)
    refine (meets_start (meets_mark (by decide)) fun _ => ?_).weaken
    exact meets_skip meets_ident fun attr => ih (regular_getAttr hn attr)

theorem meets_elementsFrom {fuel : Nat} (hf : fuel ≤ n + 1) (hn : node.Regular) :
    Meets A none 0 fuel Node.Regular (elementsFrom g fuel node) := by
  induction fuel generalizing node with
  | zero => exact nofun
  | succ fuel ih =>
    refine meets_atToken fun _ => meets_ite ?_ (meets_pure hn)
    refine (meets_first ((meets_subscript hg).below hf) fun r hr => ?_).weaken
    cases r with
    | element index => exact ih (by omega) (.of_inner rfl rfl (List.forall_mem_cons.mpr ⟨hn, hr⟩))
    | range start stop step =>
      exact ih (by omega) (.of_inner rfl (List.append_nil _) (List.forall_mem_cons.mpr ⟨hn, hr⟩))

omit hg in
theorem meets_assignTo {value : Node} (hn : node.Regular) (hv : value.Regular) :
    Meets A none 0 n Node.Regular (assignTo node value) := by
  have hp : ∀ t ∈ node.innerSteps, t.Regular := fun t h => hn.parts (List.mem_append_left _ h)
  unfold assignTo
  split
  case h_4 => exact meets_throw fun _ => trivial
  all_goals exact meets_pure (.of_inner rfl rfl (by simp_all [Node.innerSteps, Node.inner]))

omit hg in
theorem meets_updateBy {value : Node} (op : AugOp) (hn : node.Regular) (hv : value.Regular) :
    Meets A none 0 n Node.Regular (updateBy node op value) := by
  have hp : ∀ t ∈ node.innerSteps, t.Regular := fun t h => hn.parts (List.mem_append_left _ h)
  unfold updateBy
  split
  case h_4 => exact meets_throw fun _ => trivial
  all_goals exact meets_pure (.of_inner rfl rfl (by simp_all [Node.innerSteps, Node.inner]))

omit hg in
theorem regular_num (n : Numeral) : (Node.num n).Regular := .of_inner rfl rfl nofun

theorem meets_nameOrAssignment : Meets A none 1 (n + 1) Node.Regular (nameOrAssignment g) := by
  refine meets_start meets_ident fun name => ?_
  have hv : (Node.var name).Regular := .of_inner rfl rfl nofun
  refine meets_loop (fun fuel _ => meets_attributesFrom fuel hv) fun node hn => ?_
  refine meets_loop (fun fuel hf => meets_elementsFrom hg (by omega) hn) fun node hn => ?_
  refine meets_atToken fun _ => meets_ite ?assign (meets_peek fun _ => meets_ite ?update (meets_pure hn))
  case assign =>
    exact meets_skip (meets_op _) fun _ => meets_next (hg.expr 0) fun value hv => meets_assignTo hn hv
  case update =>
    refine meets_skip (meets_expectKind (by simp) (by simp)) fun t => ?_
    refine meets_ite (meets_updateBy _ hn (regular_num _)) (meets_ite (meets_updateBy _ hn (regular_num _)) ?_)
    exact meets_next (hg.expr 0) fun value hv => meets_updateBy _ hn hv

theorem meets_entry : Meets A none 1 n (fun p => p.1.Regular ∧ p.2.Regular) (entry g) :=
  meetsBy_bind (meets_optionalSymbol (by decide)) fun _ _ => meets_one (hg.expr 0) fun _ hk =>
    meets_skip (meets_mark (by decide)) fun _ => meets_next (hg.expr 0) fun _ hv => meets_pure ⟨hk, hv⟩

/-- a comprehension closes the brace before its key -/
theorem meets_dictComprehension (hn : node.Regular) :
    Meets A (some .brace) 0 n Node.Regular (dictComprehension g node) := by
  unfold dictComprehension
  simp only [pure_bind]
  refine meets_skip (meets_mark (by decide)) fun _ => meets_next (hg.expr 0) fun value hv => ?_
  refine meets_skip (meets_mark (by decide)) fun _ => meets_skip meets_ident fun var => ?_
  refine meets_skip (meets_mark (by decide)) fun _ => meets_next (hg.expr 0) fun iterable hi => ?_
  refine meets_atText fun _ => meets_ite ?_ (meets_close .brace fun _ => meets_pure ?_)
  · refine meets_skip (meets_mark (by decide)) fun _ => meets_next (hg.expr 0) fun condition hc => ?_
    exact meets_close .brace fun _ => meets_pure (.of_inner rfl rfl (by simp [Node.innerSteps, Node.inner, *]))
  · exact .of_inner rfl rfl (by simp [Node.innerSteps, Node.inner, *])

theorem meets_dictEntries (hn : node.Regular) : Meets A (some .brace) 0 n Node.Regular (dictEntries g node) := by
  refine meets_skip (meets_mark (by decide)) fun _ => meets_next (hg.expr 0) fun value hv => ?_
  refine meets_next (meets_untilText _ (meets_entry hg)) fun rest hr => meets_close .brace fun _ => ?_
  refine meets_pure (.of_inner rfl (List.append_nil _) (List.forall_mem_flatMap.mpr ?_))
  rw [List.forall_mem_cons]
  exact ⟨by simp [*], fun p hp => by simp [hr p hp]⟩

theorem meets_blockRest : Meets A (some .brace) 0 n Node.Regular (blockRest g) :=
  meets_next hg.block fun _ hb => meets_close .brace fun _ => meets_pure (.of_inner rfl (List.append_nil _) hb)

theorem meets_braced : Meets A none 1 (n + 1) Node.Regular (braced g) := by
  refine meets_open .brace fun _ => meets_atText fun _ => meets_ite ?_ ?_
  · exact meets_close .brace fun _ => meets_pure (.of_inner rfl rfl nofun)
  · refine meets_look (fun ts => ⟨ts, rfl⟩) fun ts => meets_ite ?_ (meets_blockRest hg)
    refine meets_next (hg.expr 0) fun key hk => meets_atText fun _ => meets_ite (meets_dictComprehension hg hk) ?_
    exact meets_atText fun _ => meets_ite (meets_dictEntries hg hk) (meets_blockRest hg)

theorem meets_separated {mark : String} (h : mark ∈ separators) : Meets A none 1 n Node.Regular (separated g mark) :=
  meets_one (meets_mark h) fun _ _ => (hg.expr 0).weaken

theorem meets_listComprehension (hn : node.Regular) :
    Meets A (some .square) 0 n Node.Regular (listComprehension g node) := by
  refine meets_skip (meets_mark (by decide)) fun _ => meets_skip meets_ident fun var => ?_
  refine meets_skip (meets_mark (by decide)) fun _ => meets_next (hg.expr 0) fun iterable hi => ?_
  refine meets_skip (meets_mark (by decide)) fun _ => meets_next (hg.expr 0) fun step hs => ?_
  refine meets_next (meets_whileNext (fun _ => ⟨_, rfl⟩) (meets_separated hg (by decide))) fun conditions hc => ?_
  refine meets_close .square fun _ => meets_pure (.of_inner rfl (List.append_nil _) ?_)
  simpa [Node.innerSteps, Node.inner, hn, hi, hs] using hc

theorem meets_bracketed : Meets A none 1 (n + 1) Node.Regular (bracketed g) := by
  refine meets_open .square fun _ => meets_atText fun _ => meets_ite ?_ ?_
  · exact meets_close .square fun _ => meets_pure (.of_inner rfl rfl nofun)
  · refine meets_next (hg.expr 0) fun first hf => meets_atToken fun _ => meets_ite (meets_listComprehension hg hf) ?_
    refine meets_next (meets_whileNext (fun _ => ⟨_, rfl⟩) (meets_separated hg (by decide))) fun rest hr => ?_
    exact meets_close .square fun _ =>
      meets_pure (.of_inner rfl (List.append_nil _) (List.forall_mem_cons.mpr ⟨hf, hr⟩))

theorem meets_matchArm : Meets A none 1 (n + 1) (fun c => ∀ t ∈ c.1 ++ blockSteps c.2, t.Regular) (matchArm g) := by
  refine meets_atText fun _ => meets_ite ?_ (meets_atText fun _ => meets_ite ?_ ?_)
  · refine meets_start (meets_keyword (by decide) (by decide)) fun _ => meets_next (hg.expr 0) fun first hf => ?_
    refine meets_next (meets_whileNext (fun _ => ⟨_, rfl⟩) (meets_separated hg (by decide))) fun rest hr => ?_
    refine meets_next (meets_braces hg).later fun body hb => meets_pure ?_
    rw [List.forall_mem_append, List.forall_mem_cons]
    exact ⟨⟨hf, hr⟩, hb⟩
  · exact meets_start (meets_keyword (by decide) (by decide)) fun _ =>
      meets_next (meets_braces hg).later fun body hb => meets_pure hb
  · exact meets_peek fun _ => meets_throw fun _ => trivial

theorem meets_matchCases : Meets A none 1 (n + 1) Node.Regular (matchCases g) := by
  refine meets_start (meets_keyword (by decide) (by decide)) fun _ => Meets.later (meets_open .paren fun _ => ?_)
  refine meets_next (hg.expr 0) fun subject hs => meets_close .paren fun _ => ?_
  refine Meets.later (meets_open .brace fun _ => ?_)
  refine meets_next (meets_untilText _ ((meets_matchArm hg).below (Nat.le_succ n))) fun cases hc => ?_
  refine meets_close .brace fun _ => meets_pure (.of_inner rfl (List.append_nil _) ?_)
  rw [Node.innerSteps, List.forall_mem_cons, List.forall_mem_flatMap]
  exact ⟨hs, hc⟩

omit hg in
theorem regular_negated (hn : node.Regular) : (negated node).Regular := by
  unfold negated
  split
  · exact regular_num _
  · exact .of_inner rfl rfl (List.forall_mem_singleton.mpr hn)

theorem meets_notOperand : Meets A none 1 (n + 1) Node.Regular (notOperand g) := by
  refine meets_start (meets_keyword (by decide) (by decide)) fun _ => meets_atToken fun _ => meets_ite ?_ ?_
  · exact meets_skip (meets_keyword (by decide) (by decide)) fun _ => meets_next (hg.expr 0) fun _ he =>
      meets_pure (.of_inner rfl rfl (List.forall_mem_singleton.mpr he))
  · exact meets_next hg.primary fun _ he => meets_pure (.of_inner rfl rfl (List.forall_mem_singleton.mpr he))

theorem meets_lambda : Meets A none 1 (n + 1) Node.Regular (lambda g) := by
  refine meets_start (meets_keyword (by decide) (by decide)) fun _ => ?_
  refine meets_next (meets_params hg).later fun ps hps => ?_
  refine meets_next (meets_braces hg).later fun body hb => meets_pure (.mk rfl ?_)
  show ∀ t ∈ blockSteps body ++ paramDefaults ps, t.Regular
  exact List.forall_mem_append.mpr ⟨hb, hps⟩

theorem meets_parenthesized : Meets A none 1 (n + 1) Node.Regular (parenthesized g) :=
  meets_open .paren fun _ => meets_next (hg.expr 0) fun _ he => meets_close .paren fun _ => meets_pure he

theorem meets_operand (t : Token) : Meets A none 1 (n + 1) Node.Regular (operand g t) := by
  have hp : ∀ sign, ∀ f : Node → Node, (∀ e, e.Regular → (f e).Regular) → Meets A none 1 (n + 1) Node.Regular (do
      expect .op sign
      return f (← g.primary)) := fun sign f hf =>
    meets_start (meets_op _) fun _ => meets_next hg.primary fun e he => meets_pure (hf e he)
  unfold operand
  refine meets_ite (meets_braced hg) (meets_ite (meets_bracketed hg) (meets_ite (meets_matchCases hg) ?_))
  refine meets_ite (meets_notOperand hg) (meets_ite (hp _ _ fun _ => regular_negated) (meets_ite ?_ (meets_ite ?_ ?_)))
  · exact hp _ _ fun _ he => .of_inner rfl rfl (List.forall_mem_singleton.mpr he)
  · exact hp _ _ fun _ he => .of_inner rfl rfl (List.forall_mem_singleton.mpr he)
  · exact meets_ite (meets_lambda hg) (meets_ite (meets_parenthesized hg) (meets_throw fun _ => trivial))

omit hg in
/-- a number that cannot be read is one of the tokens -/
theorem ended_integer {text : String} (ht : ⟨.number, text⟩ ∈ ts) (hl : Left 1 ts rest)
    (hs : ∀ s, A.settles s rest → A.settles s ts) :
    Ended A none (fun _ => 1) Node.Regular ts (integer text rest) := by
  unfold integer
  cases hr : readInt text with
  | ok i => exact .ok hl (regular_num _) hs
  | error e =>
    cases e with
    | malformed => exact .error ⟨ht, hr⟩
    | tooLong digits => exact .error ⟨text, ht, hr⟩

omit hg in
theorem ended_withFraction (whole : Numeral) {digits : String} (ht : ⟨.number, digits⟩ ∈ ts) (hl : Left 1 ts rest)
    (hs : ∀ s, A.settles s rest → A.settles s ts) :
    Ended A none (fun _ => 1) Node.Regular ts (withFraction whole digits rest) := by
  rw [withFraction]
  cases hr : readDouble? (numeralText whole ++ "." ++ digits) with
  | some x => exact .ok hl (regular_num _) hs
  | none => exact .error ⟨whole, digits, ht, rfl, hr⟩

theorem meets_primary : Meets A none 1 (n + 1) Node.Regular (primary g) := by
  intro ts hn
  cases ts with
  | nil => exact .error trivial
  | cons t ts =>
    obtain ⟨kind, text⟩ := t
    have ho := meets_operand hg ⟨kind, text⟩ (⟨kind, text⟩ :: ts) hn
    have hl := Left.tail ⟨kind, text⟩ ts
    cases kind with
    | number =>
      simp only [primary, bind_run, peek_run, List.head?_cons, expectKind_run]
      exact ended_integer List.mem_cons_self hl fun s => A.passes (by simp) (by simp) (by simp)
    | string =>
      simp only [primary, bind_run, peek_run, List.head?_cons, expectKind_run]
      exact .ok hl (.of_inner rfl rfl nofun) fun s => A.passes (by simp) (by simp) (by simp)
    | ident => exact meets_nameOrAssignment hg _ hn
    | _ => exact ho

/-! ## operators -/

omit hg in
theorem meets_afterPoint (hn : node.Regular) : Meets A none 1 n Node.Regular (afterPoint node) := by
  intro ts _
  rw [afterPoint]
  obtain ⟨us, rfl, hr⟩ | ⟨e, hr, he⟩ := expect_cases .symbol "." ts
  · have hp : ∀ {t : Token} {vs : List Token}, t.kind ≠ .symbol → t.kind ≠ .keyword → ∀ s,
        A.settles s vs → A.settles s (⟨.symbol, "."⟩ :: t :: vs) := fun hs hk s h =>
      A.separates (by decide)
        (A.passes hs (fun h => hk (congrArg Token.kind h)) (fun h => hk (congrArg Token.kind h)) h)
    rw [symbol, bind_ok hr]
    simp only [bind_run, peek_run]
    generalize ho : us.head? = o
    split
    · -- an attribute
      obtain ⟨vs, rfl⟩ := List.head?_eq_some_iff.mp ho
      rw [bind_run, ident_run]
      exact .ok (((Left.tail _ _).trans (Left.tail _ vs)).weaken (Nat.le_succ 1)) (regular_getAttr hn _)
        (hp (by simp) (by simp))
    · -- a fraction of a number
      obtain ⟨vs, rfl⟩ := List.head?_eq_some_iff.mp ho
      simp only [bind_run, expectKind_run]
      exact ended_withFraction _ (List.mem_cons_of_mem _ List.mem_cons_self)
        (((Left.tail _ _).trans (Left.tail _ vs)).weaken (Nat.le_succ 1)) (hp (by simp) (by simp))
    · exact .error trivial
  · rw [symbol, bind_error hr]
    exact .error he

theorem meets_conditional (hn : node.Regular) : Meets A none 1 (n + 1) Node.Regular (conditional g node) :=
  meets_start (meets_mark (by decide)) fun _ => meets_next (hg.expr 0) fun _ hy =>
    meets_skip (meets_mark (by decide)) fun _ => meets_next (hg.expr 0) fun _ hno =>
      meets_pure (.of_inner rfl rfl (by simp [Node.innerSteps, Node.inner, *]))

/-- a token is taken for every operator that is found -/
def gain : Option (Node × Bool) → Nat
  | none => 0
  | some _ => 1

/-- what a reader of an operator does -/
def Operates (A : Ledger σ) (n : Nat) (x : Parse (Option (Node × Bool))) : Prop :=
  MeetsBy A none gain n (fun o => ∀ p ∈ o, p.1.Regular) x

omit hg in
theorem operates_none : Operates A n (pure none) := fun ts _ => .ok (Left.refl ts) nofun fun _ => id

omit hg in
theorem Meets.operates {x : Parse (Option (Node × Bool))} (h : Meets A none 1 n (fun o => ∀ p ∈ o, p.1.Regular) x) :
    Operates A n x := by
  refine fun ts hn => (h ts hn).after (Left.refl ts) (fun o => ?_) fun _ => id
  cases o with
  | none => exact Nat.zero_le _
  | some p => exact Nat.le_refl _

omit hg in
theorem meets_some (hn : node.Regular) (more : Bool) :
    Meets A none 0 n (fun o => ∀ p ∈ o, p.1.Regular) (pure (some (node, more))) :=
  meets_pure (by simpa using hn)

theorem operates_extend (least : Nat) (hn : node.Regular) (t : Token) : Operates A (n + 1) (extend g least node t) := by
  have two : ∀ {e new : Node}, e.Regular → new.standsAlone = true → new.parts = [node, e] → new.Regular := by
    intro e new he hq hp
    refine .mk hq ?_
    rw [hp]
    simp [hn, he]
  have hc : Operates A (n + 1) (do
      let op := (← expectKind .compare).text
      return some (.compare (CompareOp.ofText op) node (← g.expr 0), true)) :=
    Meets.operates (meets_start (meets_expectKind (by simp) (by simp)) fun _ => meets_next (hg.expr 0) fun _ he =>
      meets_some (two he rfl rfl) _)
  have hk : ∀ word, word ≠ "ffi" → word ≠ "catch" → ∀ f : Node → Node, (∀ e, e.Regular → (f e).Regular) →
      Meets A none 1 (n + 1) (fun o => ∀ p ∈ o, p.1.Regular) (do
        keyword word
        return some (f (← g.expr 0), false)) := fun word hf hc f hr =>
    meets_start (meets_keyword hf hc) fun _ => meets_next (hg.expr 0) fun e he => meets_some (hr e he) _
  unfold extend
  refine meets_ite ?inside (meets_ite ?outside (meets_ite ?and (meets_ite ?or (meets_ite hc ?_))))
  case inside => exact (hk _ (by decide) (by decide) _ fun _ he => two he rfl rfl).operates
  case outside =>
    refine meets_look (fun _ => ⟨_, rfl⟩) fun _ => meets_ite (Meets.operates ?_) (meets_ite hc operates_none)
    refine meets_start (meets_keyword (by decide) (by decide)) fun _ => Meets.later (hk _ (by decide) (by decide) _ ?_)
    exact fun _ he => two he rfl rfl
  case and => exact (hk _ (by decide) (by decide) _ fun _ he => two he rfl rfl).operates
  case or => exact (hk _ (by decide) (by decide) _ fun _ he => two he rfl rfl).operates
  split
  · refine meets_ite operates_none (Meets.operates ?_)
    exact meets_start (meets_expectKind (by simp) (by simp)) fun _ => meets_next (hg.expr _) fun _ he =>
      meets_some (two he rfl rfl) _
  · refine meets_ite ?call (meets_ite ?subscript (meets_ite ?point (meets_ite ?question operates_none)))
    case call => exact Meets.operates (meets_one (meets_arguments hg hn) fun _ he => meets_some he _)
    case subscript =>
      refine Meets.operates (meets_one (meets_subscript hg) fun r hr => ?_)
      cases r with
      | element index => exact meets_some (two (hr index List.mem_cons_self) rfl rfl) _
      | range start stop step =>
        refine meets_some (.of_inner rfl (List.append_nil _) ?_) _
        exact List.forall_mem_cons.mpr ⟨hn, hr⟩
    case point => exact Meets.operates (meets_one (meets_afterPoint hn) fun _ he => meets_some he _)
    case question => exact Meets.operates (meets_one (meets_conditional hg hn) fun _ he => meets_some he _)

theorem meets_operatorsFrom (least : Nat) {fuel : Nat} (hf : fuel ≤ n + 1) (hn : node.Regular) :
    Meets A none 0 fuel Node.Regular (operatorsFrom g least fuel node) := by
  induction fuel generalizing node with
  | zero => exact nofun
  | succ fuel ih =>
    refine meets_peek fun o => ?_
    cases o with
    | none => exact meets_pure hn
    | some t =>
      have he : Operates A (fuel + 1) (extend g least node t) := fun ts ht =>
        operates_extend hg least hn t ts (ht.below hf)
      refine meetsBy_bind he fun o ho => ?_
      match o, ho with
      | none, _ => exact meets_pure hn
      | some (node, true), ho => exact ih (by omega) (ho _ rfl)
      | some (node, false), ho => exact meets_pure (ho _ rfl)

theorem meets_expression (least : Nat) : Meets A none 1 (n + 1) Node.Regular (expression g least) := by
  refine meets_first (meets_primary hg) fun node hn => ?_
  exact fun ts ht => meets_operatorsFrom hg least (Nat.le_succ_of_le ht.lt) hn ts ht.own

/-! ## readers of statements -/

theorem meets_condition : Meets A none 1 (n + 1) Node.Regular (condition g) := meets_parenthesized hg

omit hg in
theorem meets_nameParts (fuel : Nat) : Meets A none 0 fuel (fun _ => True) (nameParts fuel) := by
  induction fuel with
  | zero => exact nofun
  | succ fuel ih =>
    refine (meets_start meets_ident fun part => meets_atText fun _ => meets_ite ?_ (meets_pure trivial)).weaken
    exact meets_skip (meets_mark (by decide)) fun _ => meets_skip ih fun _ => meets_pure trivial

/-- the word of a definition is not looked at again, so the account of it has to be known -/
theorem ended_functionDef (hw : ∀ t us s, ts = t :: us → t.kind = .keyword → A.settles s us → A.settles s ts)
    (hn : Within A (n + 1) ts) :
    Ended A none (fun _ => 1) (fun f => ∀ t ∈ f.steps, t.Regular) ts (functionDef g ts) := by
  rw [functionDef]
  obtain ⟨t, us, rfl, hk, hr⟩ | ⟨e, hr, he⟩ := expectKind_cases .keyword ts
  · rw [bind_ok hr]
    refine Ended.after (o := none) (c := fun _ => 0) ?_ (Left.tail t us) (fun _ => Nat.le_refl _)
      fun s => hw t us s rfl hk
    refine meets_peek (fun _ => meets_ite ?_ ?_) us (hn.left (Left.tail t us))
    · exact fun _ _ => .error trivial
    · refine meets_loop (fun fuel _ => meets_nameParts fuel) fun parts _ => ?_
      refine meets_next (meets_params hg).later fun ps hps => meets_next (meets_braces hg).later fun body hb => ?_
      refine meets_pure (List.forall_mem_append.mpr ⟨hb, ?_⟩)
      dsimp only
      split
      · rw [paramDefaults_cons]
        exact hps
      · exact hps
  · rw [bind_error hr]
    exact .error he

theorem meets_elifBranch :
    Meets A none 1 (n + 1) (fun b => ∀ t ∈ b.1.toList ++ blockSteps b.2, t.Regular) (elifBranch g) :=
  meets_start (meets_keyword (by decide) (by decide)) fun _ => meets_next (meets_condition hg).later fun _ hc =>
    meets_next (meets_braces hg).later fun _ hb => meets_pure (List.forall_mem_cons.mpr ⟨hc, hb⟩)

theorem meets_ifChain : Meets A none 1 (n + 1) Node.Regular (ifChain g) := by
  have he := (meets_elifBranch hg).below (Nat.le_succ n)
  refine meets_start (meets_keyword (by decide) (by decide)) fun _ => ?_
  refine meets_next (meets_condition hg).later fun c hc => ?_
  refine meets_next (meets_braces hg).later fun body hb => ?_
  refine meets_next (meets_whileNext (fun _ => ⟨_, rfl⟩) he) fun more hm => meets_atText fun _ => ?_
  have hh : ∀ t ∈ ((some c, body) : Option Node × List Node).1.toList ++ blockSteps body, t.Regular :=
    List.forall_mem_cons.mpr ⟨hc, hb⟩
  have hf : ∀ b ∈ (some c, body) :: more, ∀ t ∈ b.1.toList ++ blockSteps b.2, t.Regular :=
    List.forall_mem_cons.mpr ⟨hh, hm⟩
  refine meets_ite ?_ (meets_pure (.of_inner rfl (List.append_nil _) (List.forall_mem_flatMap.mpr hf)))
  refine meets_skip (meets_keyword (by decide) (by decide)) fun _ => ?_
  refine meets_next (meets_braces hg).later fun last hl => ?_
  refine meets_pure (.of_inner rfl (List.append_nil _) (List.forall_mem_flatMap.mpr ?_))
  exact List.forall_mem_append.mpr ⟨hf, List.forall_mem_singleton.mpr hl⟩

theorem meets_forEach : Meets A none 1 (n + 1) Node.Regular (forEach g) := by
  have hbody : ∀ f : List Node → Node, (∀ body, (∀ t ∈ blockSteps body, t.Regular) → (f body).Regular) →
      Meets A (some .paren) 0 n Node.Regular (do
        symbol ")"
        return f (← braces g)) := fun f hf =>
    meets_close .paren fun _ => meets_next (meets_braces hg).later fun body hb => meets_pure (hf body hb)
  unfold forEach
  simp only [pure_bind]
  refine meets_start (meets_keyword (by decide) (by decide)) fun _ => Meets.later (meets_open .paren fun _ => ?_)
  refine meets_skip meets_ident fun var => meets_skip (meets_mark (by decide)) fun _ => ?_
  refine meets_next (hg.expr 0) fun iterable hi => meets_atText fun _ => meets_ite ?_ (hbody _ fun body hb => ?_)
  · refine meets_skip (meets_mark (by decide)) fun _ => meets_next (hg.expr 0) fun step hs => hbody _ fun body hb => ?_
    exact .mk rfl (by
      simpa [Node.parts, Node.innerSteps, Node.inner, Node.turnSteps, Node.turns, Node.unitSteps, hi, hs] using hb)
  · exact .mk rfl (by
      simpa [Node.parts, Node.innerSteps, Node.inner, Node.turnSteps, Node.turns, Node.unitSteps, hi] using hb)

theorem meets_whileLoop : Meets A none 1 (n + 1) Node.Regular (whileLoop g) := by
  refine meets_start (meets_keyword (by decide) (by decide)) fun _ => ?_
  refine meets_next (meets_condition hg).later fun c hc => ?_
  refine meets_next (meets_braces hg).later fun body hb => meets_pure (.mk rfl ?_)
  simpa [Node.parts, Node.innerSteps, Node.inner, Node.turnSteps, Node.turns, Node.unitSteps, hc] using hb

omit hg in
theorem handlerName_suffix (ts : List Token) : (handlerName ts).2 <:+ ts := by
  unfold handlerName
  split
  · exact (List.suffix_cons _ _).trans ((List.suffix_cons _ _).trans (List.suffix_cons _ _))
  · exact (List.suffix_cons _ _).trans (List.suffix_cons _ _)
  · exact List.suffix_cons _ _
  · exact List.suffix_refl _

theorem meets_tryCatch : Meets A none 1 (n + 1) Node.Regular (tryCatch g) := by
  refine meets_start (meets_keyword (by decide) (by decide)) fun _ => ?_
  refine meets_next (meets_braces hg).later fun body hb => ?_
  intro ts hn
  obtain ⟨us, rfl, hr⟩ | ⟨e, hr, he⟩ := expect_cases .keyword "catch" ts
  · have hl : Left 0 (⟨.keyword, "catch"⟩ :: us) (handlerName us).2 :=
      ⟨(handlerName_suffix us).trans (List.suffix_cons _ us), Nat.le_succ_of_le (handlerName_suffix us).length_le⟩
    have hs : ∀ s, A.settles s (handlerName us).2 → A.settles s (⟨.keyword, "catch"⟩ :: us) := fun s => A.handles
    rw [keyword, bind_ok hr]
    simp only [bind_run, get_run]
    generalize handlerName us = head at hl hs ⊢
    obtain ⟨name, vs⟩ := head
    simp only [set_run, ← bind_run]
    refine Ended.after (o := none) (c := fun _ => 0) ?_ hl (fun _ => Nat.le_refl _) hs
    refine meets_next (meets_braces hg).later (fun handler hh => meets_pure ?_) vs (hn.left hl)
    exact .of_inner rfl (List.append_nil _) (List.forall_mem_append.mpr ⟨hb, hh⟩)
  · rw [keyword, bind_error hr]
    exact .error he

omit hg in
theorem mem_nestedOf {members : List Member} {c : ClassDecl Node} (h : c ∈ nestedOf members) :
    Member.nested c ∈ members := by
  induction members with
  | nil => cases h
  | cons a members ih =>
    cases a with
    | nested d =>
      obtain rfl | h := List.mem_cons.1 h
      · exact List.mem_cons_self
      · exact List.mem_cons_of_mem _ (ih h)
    | _ => exact List.mem_cons_of_mem _ (ih h)

theorem meets_member :
    Meets A none 1 n (fun a => (∀ t ∈ a.trees, t.Regular) ∧ ∀ c, a = .nested c → c.Admitted A) (member g) := by
  intro ts hn
  unfold member
  rw [bind_ok (peek_run ts)]
  simp only [pure_bind]
  generalize ho : ts.head? = o
  split
  · refine (ended_functionDef hg (fun t us s he hk => ?_) (hn.below (Nat.le_succ n))).map fun _ hf => ⟨hf, nofun⟩
    subst he
    cases ho
    exact A.passes (by decide) (by decide) (by decide)
  · refine meets_one hg.classDecl (fun c hc => meets_pure ⟨fun t ht => ?_, fun _ he => ?_⟩) ts hn
    · exact hc.1.parts (List.mem_append_right _ (List.mem_append_right _ ht))
    · cases he
      exact hc.2
  · refine meets_one meets_ident (fun _ _ => meets_atText fun _ => meets_ite ?_ ?_) ts hn
    · exact meets_skip (meets_op _) fun _ => meets_next (hg.expr 0) fun _ he =>
        meets_skip (meets_optionalSymbol (by decide)) fun _ => meets_pure ⟨List.forall_mem_singleton.mpr he, nofun⟩
    · exact meets_skip (meets_optionalSymbol (by decide)) fun _ => meets_pure ⟨nofun, nofun⟩
  · exact .error trivial

omit hg in
theorem meets_parents : Meets A none 0 n (fun _ => True) parents := by
  have hp : Meets A none 1 n (fun _ => True) parent :=
    meets_one meets_ident fun _ _ => meets_skip (meets_optionalSymbol (by decide)) fun _ => meets_pure trivial
  refine meets_atText fun _ => meets_ite ?_ (meets_pure trivial)
  exact Meets.later (meets_open .paren fun _ => meets_skip (meets_untilText _ hp) fun _ =>
    meets_close .paren fun _ => meets_pure trivial)

theorem meets_classDecl :
    Meets A none 1 (n + 1) (fun c => (Node.classDef c).Regular ∧ c.Admitted A) (classDecl g) := by
  refine meets_start (meets_keyword (by decide) (by decide)) fun _ => meets_next meets_ident fun name hname => ?_
  refine meets_skip meets_parents fun ps => Meets.later (meets_open .brace fun _ => ?_)
  refine meets_next (meets_untilText _ (meets_member hg)) fun members hm => meets_close .brace fun _ => ?_
  refine meets_pure ⟨.mk rfl fun t ht => ?_, fun d hd => ?_⟩
  · exact List.forall_mem_flatMap.mpr (fun a ha => (hm a ha).1) t (mem_classUnits ht)
  · rw [ClassDecl.classes] at hd
    obtain rfl | hd := List.mem_cons.1 hd
    · exact hname
    · obtain ⟨c, hmem, hd⟩ := mem_classesIn.1 hd
      exact (hm _ (mem_nestedOf hmem)).2 c rfl d hd

theorem meets_includeFile : Meets A none 1 (n + 1) Node.Regular (includeFile g) := by
  have hi : Meets A none 1 (n + 1) (fun _ => True) (expect .ident "include") :=
    meets_expect fun _ _ => A.passes (by simp) (by simp) (by simp)
  refine meets_start hi fun _ => meets_atText fun _ => meets_ite ?_ ?_
  · refine Meets.later (meets_open .paren fun _ => meets_next (hg.expr 0) fun _ he => meets_close .paren fun _ => ?_)
    refine meets_pure (.of_inner rfl rfl ?_)
    exact List.forall_mem_cons.mpr ⟨.of_inner rfl rfl nofun, List.forall_mem_singleton.mpr he⟩
  · exact meets_skip (meets_expectKind (by simp) (by simp)) fun _ => meets_pure (.of_inner rfl rfl nofun)

omit hg in
theorem embeddedTokens_suffix (depth : Nat) (ts : List Token) : (embeddedTokens depth ts).2 <:+ ts := by
  induction ts generalizing depth with
  | nil => exact List.suffix_refl _
  | cons t ts ih =>
    unfold embeddedTokens
    split
    · exact List.suffix_cons t ts
    · exact (ih _).trans (List.suffix_cons t ts)

omit hg in
theorem meets_embedded : Meets A none 1 (n + 1) Node.Regular embedded := by
  intro ts _
  rw [embedded]
  obtain ⟨us, rfl, hk⟩ | ⟨e, hk, he⟩ := expect_cases .keyword "ffi" ts
  · rw [keyword, bind_ok hk]
    obtain ⟨vs, rfl, hr⟩ | ⟨e, hr, he⟩ := expect_cases .symbol "\x7b" us
    · have hl : Left 0 vs (embeddedTokens 1 vs).2 :=
        ⟨embeddedTokens_suffix 1 vs, (embeddedTokens_suffix 1 vs).length_le⟩
      have hl' := ((Left.tail ⟨.keyword, "ffi"⟩ _).trans (Left.tail ⟨.symbol, "\x7b"⟩ vs)).trans hl
      rw [symbol, bind_ok hr]
      simp only [bind_run, get_run, set_run]
      exact .ok (hl'.weaken (Nat.le_succ 1)) (.of_inner rfl rfl nofun) fun _ => A.embeds
    · rw [symbol, bind_error hr]
      exact .error (he.mono (List.subset_cons_self _ us))
  · rw [keyword, bind_error hk]
    exact .error he

omit hg in
/-- a reader of statements that reads no returns -/
theorem Meets.step {x : Parse Node} (h : Meets A none 1 n Node.Regular x) :
    Meets A none 1 n (fun s => ∀ t ∈ s.step, t.Regular) x := h.imp fun _ => Node.Regular.step

theorem meets_statement : Meets A none 1 (n + 1) (fun s => ∀ t ∈ s.step, t.Regular) (statement g) := by
  have word : ∀ {w : String}, w ≠ "ffi" → w ≠ "catch" → Meets A none 1 (n + 1) (fun _ => True) (keyword w) :=
    meets_keyword
  have leaf : ∀ {node : Node}, node.standsAlone = true → node.parts = [] → Meets A none 0 n Node.Regular (pure node) :=
    fun hq hp => meets_pure (.mk hq (hp ▸ nofun))
  intro ts hn
  unfold statement
  rw [bind_ok (peek_run ts)]
  generalize ho : ts.head?.map Token.text = o
  split
  · have hd : ∀ f : Method Node, (∀ t ∈ f.steps, t.Regular) → (Node.define f).Regular := fun f hf => .mk rfl hf
    refine (ended_functionDef hg (fun t us s he hk => ?_) hn).map fun f hf => (hd f hf).step
    subst he
    obtain ⟨kind, text⟩ := t
    obtain rfl : kind = .keyword := hk
    obtain rfl : text = "def" := Option.some.inj ho
    exact A.passes (by decide) (by decide) (by decide)
  · exact (meets_ifChain hg).step ts hn
  · exact (meets_forEach hg).step ts hn
  · exact (meets_whileLoop hg).step ts hn
  · exact (meets_start (word (by decide) (by decide)) fun _ => leaf rfl rfl).step ts hn
  · exact (meets_start (word (by decide) (by decide)) fun _ => leaf rfl rfl).step ts hn
  -- a return is no step itself, but the tree in it is one
  · refine meets_start (word (by decide) (by decide)) (fun _ => meets_atText fun _ => ?_) ts hn
    refine meets_ite (meets_pure nofun) (meets_next (hg.expr 0) fun e he => meets_pure ?_)
    exact List.forall_mem_singleton.mpr he
  · refine Meets.step (meets_start (word (by decide) (by decide)) fun _ => ?_) ts hn
    exact meets_skip meets_ident fun _ => leaf rfl rfl
  · exact (meets_tryCatch hg).step ts hn
  · refine Meets.step (meets_start (word (by decide) (by decide)) fun _ => meets_next (hg.expr 0) fun e he => ?_) ts hn
    exact meets_pure (.of_inner rfl rfl (List.forall_mem_singleton.mpr he))
  · exact Meets.step (meets_one (meets_classDecl hg) fun _ hc => meets_pure hc.1) ts hn
  · exact (meets_includeFile hg).step ts hn
  · exact meets_embedded.step ts hn
  · exact (meets_matchCases hg).step ts hn
  · exact (meets_expression hg 0).step ts hn

theorem meets_statementsFrom (close : Option String) {fuel : Nat} (hn : fuel ≤ n + 1) :
    Meets A none 0 fuel (∀ t ∈ blockSteps ·, t.Regular) (statementsFrom g close fuel) := by
  induction fuel with
  | zero => exact nofun
  | succ fuel ih =>
    refine meets_peek fun o => ?_
    cases o with
    | none => exact meets_pure nofun
    | some t =>
      refine meets_ite (meets_pure nofun) ?_
      refine (meets_first ((meets_statement hg).below hn) fun s hs => ?_).weaken
      refine meets_next (ih (by omega)) fun rest hr => meets_pure ?_
      rw [blockSteps_cons, List.forall_mem_append]
      exact ⟨hs, hr⟩

theorem meets_block : Meets A none 0 (n + 1) (∀ t ∈ blockSteps ·, t.Regular) (block g) := fun ts hn =>
  meets_statementsFrom hg _ hn.lt ts hn.own

end

/-- **The readers of every depth meet their specifications**, on lists that are shorter than the depth. -/
theorem grammar_meets (A : Ledger σ) (n : Nat) : (grammar n).Meets A n := by
  induction n with
  | zero => exact ⟨nofun, nofun, nofun, nofun⟩
  | succ n ih =>
    exact ⟨fun least => meets_expression ih least, meets_primary ih, meets_block ih, meets_classDecl ih⟩

end Parse

end BraceScript
