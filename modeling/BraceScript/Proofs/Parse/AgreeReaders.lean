import BraceScript.Proofs.Parse.Agree

/-!
# Every reader on two lists of tokens

The readers of two depths agree on a list of tokens and its changed copy, the second depth being at least
the first. Each reader is put together from smaller ones, and so is the proof that it agrees; the two scans
over the tokens in braces, which look arbitrarily far ahead, end before the end of the list.

* `Change.Agreeing`   the readers that a reader calls agree
* `agree_extend`      what one operator does, where a string is no operator
* `agree_form`        the forms of statements, by the word in front
* `grammar_agree`     the readers of all depths agree
-/

namespace BraceScript

open Parse
open List (Forall₂)
open Prod (RProd)

/-! ## looks that can wait -/

namespace Parse

variable {α β : Type}

theorem look_ite {x : Parse α} (hx : ∀ ts, ∃ a, x ts = .ok (a, ts)) {p : Prop} [Decidable p] (y : Parse β)
    (f : α → Parse β) : (x >>= fun a => if p then y else f a) = if p then y else x >>= f := by
  split
  · funext ts
    obtain ⟨a, ha⟩ := hx ts
    rw [bind_ok ha]
  · rfl

theorem atText_ite {w : String} {p : Prop} [Decidable p] (y : Parse β) (f : Bool → Parse β) :
    (atText w >>= fun b => if p then y else f b) = if p then y else atText w >>= f :=
  look_ite (fun _ => ⟨_, rfl⟩) y f

theorem peek_ite {p : Prop} [Decidable p] (y : Parse β) (f : Option Token → Parse β) :
    (peek >>= fun o => if p then y else f o) = if p then y else peek >>= f :=
  look_ite (fun _ => ⟨_, rfl⟩) y f

theorem peekSecond_ite {p : Prop} [Decidable p] (y : Parse β) (f : Option Token → Parse β) :
    (peekSecond >>= fun o => if p then y else f o) = if p then y else peekSecond >>= f :=
  look_ite (fun _ => ⟨_, rfl⟩) y f

def closedBlock (g : Grammar) : Parse (List Node) := do
  let body ← g.block
  symbol "\x7d"
  return body

/-- statements with the brace that closes them, at most `fuel` -/
def closedFrom (g : Grammar) (fuel : Nat) : Parse (List Node) := do
  let body ← statementsFrom g (some "\x7d") fuel
  symbol "\x7d"
  return body

theorem closedFrom_step (g : Grammar) (fuel : Nat) (t : Token) (ts : List Token) :
    closedFrom g (fuel + 1) (t :: ts) =
      (if t.text = "\x7d" then symbol "\x7d" >>= fun _ => pure []
      else statement g >>= fun s => closedFrom g fuel >>= fun rest => pure (s :: rest)) (t :: ts) := by
  rw [closedFrom, statementsFrom]
  by_cases h : t.text = "\x7d"
  · simp [h]
  · have hne : ¬ some "\x7d" = some t.text := fun he => h (Option.some.inj he).symm
    simp only [bind_assoc, closedFrom, if_neg h, bind_ok (peek_run (t :: ts)), List.head?_cons, if_neg hne,
      pure_bind]

def form (g : Grammar) : String → Parse Node
  | "def" => return .define (← functionDef g)
  | "if" => ifChain g
  | "for" => forEach g
  | "while" => whileLoop g
  | "break" => do
    keyword "break"
    return .breakLoop
  | "continue" => do
    keyword "continue"
    return .continueLoop
  | "return" => do
    keyword "return"
    if ← atText ";" then return .ret none
    else return .ret (some (← g.expr 0))
  | "global" => do
    keyword "global"
    return .global (← ident)
  | "try" => tryCatch g
  | "throw" => do
    keyword "throw"
    return .throw (← g.expr 0)
  | "class" => return .classDef (← classDecl g)
  | "include" => includeFile g
  | "ffi" => embedded
  | "match" => matchCases g
  | _ => expression g 0

theorem form_expression {g : Grammar} {w : String} (h : w ∉ statementWords) : form g w = expression g 0 := by
  unfold form
  split
  case h_15 => rfl
  all_goals exact absurd (by decide) h

theorem statement_form (g : Grammar) (t : Token) (ts : List Token) :
    statement g (t :: ts) = form g t.text (t :: ts) := by
  by_cases h : t.text ∈ statementWords
  · obtain ⟨kind, text⟩ := t
    simp only [statementWords, List.mem_cons, List.not_mem_nil, or_false] at h
    rcases h with rfl | rfl | rfl | rfl | rfl | rfl | rfl | rfl | rfl | rfl | rfl | rfl | rfl | rfl
    all_goals rfl
  · rw [statement_expression g t ts h, form_expression h]

/-- every form but an expression begins with a token that is no string -/
theorem stumbles_form (g : Grammar) {w : String} (h : w ∈ statementWords) : Stumbles w (form g w) := by
  intro ts
  simp only [statementWords, List.mem_cons, List.not_mem_nil, or_false] at h
  rcases h with rfl | rfl | rfl | rfl | rfl | rfl | rfl | rfl | rfl | rfl | rfl | rfl | rfl | rfl
  all_goals exact ⟨_, rfl⟩

/-! ## parts of trees -/

section
variable (R : Node → Node → Prop)

/-- subscripts with related parts -/
inductive Subscript.Rel : Subscript → Subscript → Prop
  | element {i i' : Node} (h : R i i') : Rel (.element i) (.element i')
  | range {a a' b b' c c' : Option Node} (ha : Option.Rel R a a') (hb : Option.Rel R b b')
    (hc : Option.Rel R c c') : Rel (.range a b c) (.range a' b' c')

/-- arguments with related values -/
inductive Argument.Rel : Argument → Argument → Prop
  | positional {v v' : Node} (h : R v v') : Rel (.positional v) (.positional v')
  | named {name : String} {v v' : Node} (h : R v v') : Rel (.named name v) (.named name v')

/-- members of a class with related parts -/
inductive Member.Rel : Member → Member → Prop
  | field {name : String} {v v' : Option Node} (h : Option.Rel R v v') : Rel (.field name v) (.field name v')
  | method {m m' : Method Node} (h : Method.Rel R m m') : Rel (.method m) (.method m')
  | nested {d d' : ClassDecl Node} (h : ClassDecl.Rel R d d') : Rel (.nested d) (.nested d')

end

section
variable {R : Node → Node → Prop}

theorem rel_putNamed {name : String} {v v' : Node} (hv : R v v') {ks ks' : List (String × Node)}
    (h : Forall₂ (RProd Eq R) ks ks') : Forall₂ (RProd Eq R) (putNamed name v ks) (putNamed name v' ks') := by
  induction h with
  | nil => exact .cons (.intro rfl hv) .nil
  | cons hk hks ih =>
    obtain ⟨rfl, hw⟩ := hk
    simp only [putNamed]
    split
    · exact .cons (.intro rfl hv) hks
    · exact .cons (.intro rfl hw) ih

theorem rel_positionals {as as' : List Argument} (h : Forall₂ (Argument.Rel R) as as') :
    Forall₂ R (positionals as) (positionals as') := by
  induction h with
  | nil => exact .nil
  | cons ha _ ih =>
    cases ha with
    | positional hv => exact .cons hv ih
    | named hv => exact ih

theorem rel_nameds {as as' : List Argument} (h : Forall₂ (Argument.Rel R) as as')
    {ks ks' : List (String × Node)} (hk : Forall₂ (RProd Eq R) ks ks') :
    Forall₂ (RProd Eq R) (nameds ks as) (nameds ks' as') := by
  induction h generalizing ks ks' with
  | nil => exact hk
  | cons ha _ ih =>
    cases ha with
    | positional hv => exact ih hk
    | named hv => exact ih (rel_putNamed hv hk)

theorem rel_fieldsOf {ms ms' : List Member} (h : Forall₂ (Member.Rel R) ms ms') :
    Forall₂ (FieldRel R) (fieldsOf ms) (fieldsOf ms') := by
  induction h with
  | nil => exact .nil
  | cons hm _ ih =>
    cases hm with
    | field hv => exact .cons (.mk hv) ih
    | method _ => exact ih
    | nested _ => exact ih

theorem rel_methodsOf {ms ms' : List Member} (h : Forall₂ (Member.Rel R) ms ms') :
    Forall₂ (Method.Rel R) (methodsOf ms) (methodsOf ms') := by
  induction h with
  | nil => exact .nil
  | cons hm _ ih =>
    cases hm with
    | field _ => exact ih
    | method h => exact .cons h ih
    | nested _ => exact ih

theorem rel_nestedOf {ms ms' : List Member} (h : Forall₂ (Member.Rel R) ms ms') :
    Forall₂ (ClassDecl.Rel R) (nestedOf ms) (nestedOf ms') := by
  induction h with
  | nil => exact .nil
  | cons hm _ ih =>
    cases hm with
    | field _ => exact ih
    | method _ => exact ih
    | nested h => exact .cons h ih

theorem alike_negated {K : String → String → Prop} {a b : Node} (h : Node.Alike K a b) :
    Node.Alike K (negated a) (negated b) := by
  cases h
  case num => exact .num
  all_goals
    refine .neg ?_
    constructor <;> assumption

end

end Parse

namespace Change

variable {c : Change} {γ δ : Type} {S : γ → δ → Prop}

abbrev Tree (c : Change) : Node → Node → Prop := Node.Alike c.swap

/-- the readers that a reader calls agree -/
structure Agreeing (c : Change) (g g' : Grammar) : Prop where
  expr (least : Nat) : c.Agree c.Tree (g.expr least) (g'.expr least)
  primary : c.Agree c.Tree g.primary g'.primary
  block : c.Agree (Forall₂ c.Tree) (closedBlock g) (closedBlock g')
  classDecl : c.Agree (ClassDecl.Rel c.Tree) g.classDecl g'.classDecl

/-! ## scans over the tokens in braces -/

/-- the texts that the scans look for are the same in both lists -/
theorem swap_text_iff {s s' w : String} (h : c.swap s s') (hw : w ∈ steering) : s = w ↔ s' = w := by
  rcases c.inert h with rfl | ⟨hs, hs'⟩
  · exact Iff.rfl
  · constructor
    · rintro rfl
      exact absurd hw hs
    · rintro rfl
      exact absurd hw hs'

theorem alike_text_iff {t t' : Token} (h : Token.Alike c.swap t t') {w : String} (hw : w ∈ steering) :
    t.text = w ↔ t'.text = w := by
  cases h with
  | same _ => exact Iff.rfl
  | string h => exact swap_text_iff h hw

theorem holdsEntries_like {ts ts' : List Token} (h : c.Like ts ts') {d depth : Nat} (hd : 1 ≤ depth)
    (hc : c.tail = [] ∨ Closes (d + depth) ts) : holdsEntries depth ts = holdsEntries depth ts' := by
  induction h generalizing depth with
  | nil =>
    rcases hc with hc | hc
    · rw [hc]
    · have h0 : d + depth = 0 := Option.some.inj hc.depth
      omega
  | @cons t t' ts ts' ha _ ih =>
    have ho := alike_text_iff ha (w := "\x7b") (by decide)
    have hq := alike_text_iff ha (w := "\x7d") (by decide)
    have hs := alike_text_iff ha (w := ":") (by decide)
    have hb := alike_text_iff ha (w := "|") (by decide)
    rw [holdsEntries, holdsEntries]
    simp only [← ho, ← hq, ← hs, ← hb]
    split
    · exact ih (by omega) (hc.imp id fun h => h.push ‹_›)
    · split
      · split
        · rfl
        · refine ih (by omega) (hc.imp id fun h => ?_)
          have hp := (h.pop ‹_›).2
          rwa [show d + depth - 1 = d + (depth - 1) by omega] at hp
      · split
        · rfl
        · exact ih hd (hc.imp id fun h => h.keep ‹_› ‹_›)

/-- whether a token is a brace is the same in both lists -/
theorem alike_symbol_iff {t t' : Token} (h : Token.Alike c.swap t t') (w : String) :
    t = ⟨.symbol, w⟩ ↔ t' = ⟨.symbol, w⟩ := by
  cases h with
  | same _ => exact Iff.rfl
  | string _ =>
    constructor
    · nofun
    · nofun

/-- one token further in a block of embedded code, the braces around the block still close -/
theorem closes_embedded {t : Token} {ts : List Token} {d depth : Nat} (h : Closes (d + depth) (t :: ts))
    (hd : t = ⟨.symbol, "\x7d"⟩ → 1 < depth) :
    Closes (d + (if t = ⟨.symbol, "\x7b"⟩ then depth + 1
      else if t = ⟨.symbol, "\x7d"⟩ then depth - 1 else depth)) ts := by
  split
  · exact h.push (by rw [‹t = _›])
  · split
    · have hp := (h.pop (by rw [‹t = _›])).2
      have := hd ‹_›
      rwa [show d + depth - 1 = d + (depth - 1) by omega] at hp
    · -- a token that is spelled as a brace is punctuation
      have hmark : ∀ w, w = "\x7b" ∨ w = "\x7d" → t ≠ ⟨.symbol, w⟩ → t.text ≠ w := by
        intro w hw hne ht
        have hk := h.marks t List.mem_cons_self (by rw [ht]; exact hw)
        exact hne (by rw [← hk, ← ht])
      exact h.keep (hmark _ (Or.inl rfl) ‹_›) (hmark _ (Or.inr rfl) ‹_›)

theorem embeddedTokens_like {ts ts' : List Token} (h : c.Like ts ts') {d depth : Nat} (hd : 1 ≤ depth)
    (hc : c.tail = [] ∨ Closes (d + depth) ts) :
    ∃ us us' rest rest', embeddedTokens depth ts = (us.map embeddedText, rest) ∧
      embeddedTokens depth ts' = (us'.map embeddedText, rest') ∧ Forall₂ (Token.Alike c.swap) us us' ∧
      c.Near rest rest' := by
  induction h generalizing depth with
  | nil =>
    rcases hc with hc | hc
    · refine ⟨[], [], [], [], rfl, ?_, .nil, ⟨?_, Or.inl hc⟩⟩
      · rw [hc]
        rfl
      · have hl := Like.nil (c := c)
        rwa [hc] at hl
    · have h0 : d + depth = 0 := Option.some.inj hc.depth
      omega
  | @cons t t' ts ts' ha hl ih =>
    have ho := alike_symbol_iff ha "\x7b"
    have hq := alike_symbol_iff ha "\x7d"
    rw [embeddedTokens, embeddedTokens]
    simp only [← ho, ← hq]
    by_cases hend : (decide (t = ⟨.symbol, "\x7d"⟩) && decide (depth ≤ 1)) = true
    · -- the brace that closes the block
      rw [if_pos hend, if_pos hend]
      exact ⟨[], [], ts, ts', rfl, rfl, .nil, hl, hc.imp id fun h => h.tail⟩
    · rw [if_neg hend, if_neg hend]
      have hne : t = ⟨.symbol, "\x7d"⟩ → 1 < depth := by
        intro ht
        by_contra hle
        exact hend (by simp [ht, Nat.le_of_not_lt hle])
      have hd' : 1 ≤ (if t = ⟨.symbol, "\x7b"⟩ then depth + 1
          else if t = ⟨.symbol, "\x7d"⟩ then depth - 1 else depth) := by
        split
        · omega
        · split
          · have := hne ‹_›
            omega
          · exact hd
      obtain ⟨us, us', rest, rest', he, he', hu, hn⟩ := ih hd' (hc.imp id fun h => closes_embedded h hne)
      refine ⟨t :: us, t' :: us', rest, rest', ?_, ?_, .cons ha hu, hn⟩
      · rw [he]
        rfl
      · rw [he']
        rfl

theorem agree_embedded : c.Agree c.Tree embedded embedded := by
  refine agree_word <| agree_open fun ts ts' hn hi => ?_
  have hc : ∃ d, c.tail = [] ∨ Closes (d + 1) ts := by
    rcases hi with h | ⟨d, h⟩
    · exact ⟨0, Or.inl h⟩
    · exact ⟨d, Or.inr h⟩
  obtain ⟨d, hc⟩ := hc
  obtain ⟨us, us', rest, rest', he, he', hu, hr⟩ := embeddedTokens_like hn.like (Nat.le_refl 1) hc
  simp only [bind_run, get_run, he, he', set_run, pure_run]
  exact .ok (.embedded hu) hr

/-! ## readers of expressions -/

section
variable {g g' : Grammar} (hg : c.Agreeing g g') {a b : Node} {t : Token} {fuel fuel' : Nat}
include hg

theorem agree_braces : c.Agree (Forall₂ c.Tree) (braces g) (braces g') :=
  agree_mark <| hg.block

theorem agree_param : c.Agree (Param.Rel c.Tree) (param g) (param g') := by
  unfold param
  simp only [pure_bind, atText_ite]
  have hcomma : ∀ {p p'}, Param.Rel c.Tree p p' → c.Agree (Param.Rel c.Tree)
      (optionalSymbol "," >>= fun _ => pure p) (optionalSymbol "," >>= fun _ => pure p') := fun h =>
    agree_then (agree_optionalSymbol (by decide)) fun _ => agree_pure h
  refine agree_ifText (by decide) (by decide) ?_ (agree_ifText (by decide) (by decide) ?_ ?_)
  · exact agree_then agree_ident fun name => hcomma .keywords
  · exact agree_then agree_ident fun name => hcomma .rest
  · refine agree_then agree_ident fun name => agree_ifText (by decide) (by decide) ?_ ?_
    · exact agree_bind (hg.expr 0) fun v v' hv => hcomma (.plain (.some hv))
    · exact hcomma (.plain .none)

theorem agree_params : c.Agree (Forall₂ (Param.Rel c.Tree)) (params g) (params g') :=
  agree_mark <| agree_until (by decide) (agree_param hg) fun _ _ h => agree_pure h

/-! ## subscripts and calls -/

omit hg in
theorem unlessAt_stop {stops : List String} (h : t.text ∈ stops) (ts : List Token) :
    unlessAt g stops (t :: ts) = .ok (none, t :: ts) := by
  simp [unlessAt, h]

omit hg in
theorem unlessAt_go {stops : List String} {ts : List Token} (h : ∀ t, ts.head? = some t → t.text ∉ stops) :
    unlessAt g stops ts = (some <$> g.expr 0) ts := by
  cases ts with
  | nil => simp [unlessAt]
  | cons t ts => simp [unlessAt, h t rfl]

/-- a stop that is a string ends the part before it in one run only, and there the next reader fails -/
theorem agree_unlessAt {stops : List String} {k : Option Node → Parse γ} {k' : Option Node → Parse δ}
    (hs : ∀ w ∈ stops, w ∉ openers ∧ Sure w (k none) ∧ Sure w (k' none))
    (hk : ∀ o o', Option.Rel c.Tree o o' → c.Agree S (k o) (k' o')) :
    c.Agree S (unlessAt g stops >>= k) (unlessAt g' stops >>= k') := by
  intro ts ts' hn
  have hstop : ∀ {t t' us us'}, ts = t :: us → ts' = t' :: us' → t.text ∈ stops → t'.text ∈ stops →
      c.Outcome S ((unlessAt g stops >>= k) ts) ((unlessAt g' stops >>= k') ts') := by
    rintro t t' us us' rfl rfl ht ht'
    rw [bind_ok (unlessAt_stop ht us), bind_ok (unlessAt_stop ht' us')]
    exact hk none none .none _ _ hn
  have hgo : (∀ t, ts.head? = some t → t.text ∉ stops) → (∀ t, ts'.head? = some t → t.text ∉ stops) →
      c.Outcome S ((unlessAt g stops >>= k) ts) ((unlessAt g' stops >>= k') ts') := by
    intro h h'
    refine outcome_bind (R := Option.Rel c.Tree) ?_ fun o o' us us' _ ho hn' => hk o o' ho us us' hn'
    rw [unlessAt_go h, unlessAt_go h', map_eq_pure_bind, map_eq_pure_bind]
    exact agree_bind (hg.expr 0) (fun _ _ h => agree_pure (.some h)) ts ts' hn
  cases hn.fronts with
  | done _ => exact hgo nofun nofun
  | opens _ _ ho =>
    refine hgo nofun ?_
    rintro t ⟨⟩ ht
    exact (hs _ ht).1 ho
  | @same t us us' _ _ =>
    by_cases ht : t.text ∈ stops
    · exact hstop rfl rfl ht ht
    · refine hgo ?_ ?_
      · rintro _ ⟨⟩
        exact ht
      · rintro _ ⟨⟩
        exact ht
  | @string s s' us us' hsw _ =>
    by_cases hl : s ∈ stops
    · by_cases hr : s' ∈ stops
      · exact hstop rfl rfl hl hr
      · have hne : s ≠ s' := fun he => hr (he ▸ hl)
        rw [bind_ok (unlessAt_stop hl us)]
        exact outcome_lax hsw hne ((c.inert hsw).resolve_left hne).1 (hs s hl).2.1 us _
    · by_cases hr : s' ∈ stops
      · have hne : s ≠ s' := fun he => hl (he ▸ hr)
        rw [bind_ok (unlessAt_stop hr us')]
        exact outcome_trips hsw hne ((c.inert hsw).resolve_left hne).2 (hs s' hr).2.2 us' _
      · refine hgo ?_ ?_
        · rintro _ ⟨⟩
          exact hl
        · rintro _ ⟨⟩
          exact hr

omit hg in
theorem subscriptStep_bind (g : Grammar) (k : Option Node → Parse γ) :
    (subscriptStep g >>= k) = (do
      if ← atText ":" then
        symbol ":"
        unlessAt g ["]"] >>= k
      else k none) := by
  rw [subscriptStep, bind_assoc]
  congr 1
  funext b
  cases b with
  | true => simp only [if_true, bind_assoc]
  | false => simp only [Bool.false_eq_true, if_false, pure_bind]

theorem agree_subscript : c.Agree (Subscript.Rel c.Tree) (subscript g) (subscript g') := by
  unfold subscript
  simp only [pure_bind, subscriptStep_bind]
  have hclose : ∀ {r r' : Subscript}, Subscript.Rel c.Tree r r' → c.Agree (Subscript.Rel c.Tree)
      (symbol "]" >>= fun _ => pure r) (symbol "]" >>= fun _ => pure r') := fun h =>
    agree_mark <| agree_pure h
  have hcolon : ∀ {ε : Type} (x : Parse ε), Sure ":" x := fun _ => Or.inl (by decide)
  refine agree_mark <| agree_unlessAt hg ?_ fun start start' hstart => ?_
  · intro w hw
    obtain rfl := List.mem_singleton.mp hw
    exact ⟨by decide, hcolon _, hcolon _⟩
  refine agree_ifText (by decide) (by decide) (agree_unlessAt hg ?_ fun stop stop' hstop => ?_) ?_
  · intro w hw
    obtain rfl | hw := List.mem_cons.mp hw
    · exact ⟨by decide, hcolon _, hcolon _⟩
    · -- neither a step nor the closing bracket is found
      obtain rfl := List.mem_singleton.mp hw
      exact ⟨by decide, Or.inr ⟨by decide, fun _ => ⟨_, rfl⟩⟩, Or.inr ⟨by decide, fun _ => ⟨_, rfl⟩⟩⟩
  · refine agree_ifText (by decide) (by decide) (agree_unlessAt hg ?_ fun step step' hstep => ?_) ?_
    · intro w hw
      obtain rfl := List.mem_singleton.mp hw
      exact ⟨by decide, Or.inr ⟨by decide, fun _ => ⟨_, rfl⟩⟩, Or.inr ⟨by decide, fun _ => ⟨_, rfl⟩⟩⟩
    · exact hclose (.range hstart hstop hstep)
    · exact hclose (.range hstart hstop .none)
  · cases hstart with
    | none => exact hclose (.range .none .none .none)
    | some h => exact hclose (.element h)

theorem agree_argument : c.Agree (Argument.Rel c.Tree) (argument g) (argument g') := by
  unfold argument
  simp only [pure_bind, atText_ite, peek_ite, peekSecond_ite]
  have hcomma : ∀ {a a'}, Argument.Rel c.Tree a a' → c.Agree (Argument.Rel c.Tree)
      (optionalSymbol "," >>= fun _ => pure a) (optionalSymbol "," >>= fun _ => pure a') := fun h =>
    agree_then (agree_optionalSymbol (by decide)) fun _ => agree_pure h
  refine agree_ifText (by decide) (by decide) ?_ (agree_ifText (by decide) (by decide) ?_ ?_)
  · exact agree_bind (hg.expr 0) fun v v' hv => hcomma (.positional (.keywordUnpack hv))
  · exact agree_bind (hg.expr 0) fun v v' hv => hcomma (.positional (.unpack hv))
  · refine agree_named (fun name => ?_) ?_
    · exact agree_bind (hg.expr 0) fun v v' hv => hcomma (.named hv)
    · exact agree_bind (hg.expr 0) fun v v' hv => hcomma (.positional hv)

theorem agree_arguments {f f' : Node} (hf : c.Tree f f') :
    c.Agree c.Tree (arguments g f) (arguments g' f') :=
  agree_mark <| agree_until (by decide) (agree_argument hg) fun _ _ h =>
    agree_pure (.call hf (rel_positionals h) (rel_nameds h .nil))

/-! ## names -/

omit hg in
theorem agree_attributesFrom (hle : fuel ≤ fuel') (h : c.Tree a b) :
    c.Agree c.Tree (attributesFrom fuel a) (attributesFrom fuel' b) := by
  induction fuel generalizing fuel' a b with
  | zero => exact fun _ _ _ => .lax .deep
  | succ fuel ih =>
    obtain ⟨fuel', rfl⟩ : ∃ m, fuel' = m + 1 := ⟨fuel' - 1, by omega⟩
    refine agree_atToken (by decide) nofun fun more => ?_
    cases more with
    | true =>
      exact agree_mark <| agree_then agree_ident fun attr =>
        ih (by omega) (.getAttr h)
    | false => exact agree_pure h

theorem agree_elementsFrom (hle : fuel ≤ fuel') (h : c.Tree a b) :
    c.Agree c.Tree (elementsFrom g fuel a) (elementsFrom g' fuel' b) := by
  induction fuel generalizing fuel' a b with
  | zero => exact fun _ _ _ => .lax .deep
  | succ fuel ih =>
    obtain ⟨fuel', rfl⟩ : ∃ m, fuel' = m + 1 := ⟨fuel' - 1, by omega⟩
    refine agree_atToken (by decide) nofun fun more => ?_
    cases more with
    | true =>
      refine agree_bind (agree_subscript hg) fun r r' hr => ?_
      cases hr with
      | element hi => exact ih (by omega) (.getItem h hi)
      | range ha hb hc => exact ih (by omega) (.slice h ha hb hc)
    | false => exact agree_pure h

omit hg in
theorem agree_assignTo {v v' : Node} (h : c.Tree a b) (hv : c.Tree v v') :
    c.Agree c.Tree (assignTo a v) (assignTo b v') := by
  cases h
  case getItem ho hi => exact agree_pure (.setIndex ho hi hv)
  case var => exact agree_pure (.assign hv)
  case getAttr ho => exact agree_pure (.setAttr ho hv)
  all_goals exact agree_throw _

omit hg in
theorem agree_updateBy {v v' : Node} (h : c.Tree a b) (op : AugOp) (hv : c.Tree v v') :
    c.Agree c.Tree (updateBy a op v) (updateBy b op v') := by
  cases h
  case getItem ho hi => exact agree_pure (.augIndex ho hi hv)
  case var => exact agree_pure (.augAssign hv)
  case getAttr ho => exact agree_pure (.augAttr ho hv)
  all_goals exact agree_throw _

theorem agree_nameOrAssignment : c.Agree c.Tree (nameOrAssignment g) (nameOrAssignment g') := by
  refine agree_then agree_ident fun name => ?_
  refine agree_loop (fun _ _ hle => agree_attributesFrom hle .var) fun a b h => ?_
  refine agree_loop (fun _ _ hle => agree_elementsFrom hg hle h) fun a b h => ?_
  refine agree_atToken (by decide) nofun fun eq => ?_
  cases eq with
  | true => exact agree_then (agree_op _) fun _ => agree_bind (hg.expr 0) fun v v' hv => agree_assignTo h hv
  | false =>
    refine agree_ifKind (by decide) ?_ (agree_pure h)
    refine agree_then (agree_expectKind (by decide)) fun t => ?_
    refine agree_ite (agree_updateBy h _ .num) (agree_ite (agree_updateBy h _ .num) ?_)
    exact agree_bind (hg.expr 0) fun v v' hv => agree_updateBy h _ hv

/-! ## collections -/

theorem agree_entry : c.Agree (RProd c.Tree c.Tree) (entry g) (entry g') :=
  agree_then (agree_optionalSymbol (by decide)) fun _ => agree_bind (hg.expr 0) fun _ _ hk =>
    agree_mark <| agree_bind (hg.expr 0) fun _ _ hv => agree_pure (.intro hk hv)

theorem agree_dictComprehension {k k' : Node} (hk : c.Tree k k') :
    c.Agree c.Tree (dictComprehension g k) (dictComprehension g' k') := by
  unfold dictComprehension
  simp only [pure_bind]
  refine agree_mark <| agree_bind (hg.expr 0) fun v v' hv => ?_
  refine agree_mark <| agree_then agree_ident fun x => ?_
  refine agree_mark <| agree_bind (hg.expr 0) fun i i' hi => ?_
  refine agree_ifText (by decide) (by decide) ?_ ?_
  · exact agree_bind (hg.expr 0) fun e e' he => agree_mark <|
      agree_pure (.dictComp hk hv hi (.some he))
  · exact agree_mark <| agree_pure (.dictComp hk hv hi .none)

theorem agree_dictEntries {k k' : Node} (hk : c.Tree k k') :
    c.Agree c.Tree (dictEntries g k) (dictEntries g' k') :=
  agree_mark <| agree_bind (hg.expr 0) fun _ _ hv =>
    agree_until (by decide) (agree_entry hg) fun _ _ h => agree_pure (.dict (.cons (.intro hk hv) h))

theorem agree_blockRest : c.Agree c.Tree (blockRest g) (blockRest g') := by
  have h : c.Agree c.Tree (closedBlock g >>= fun body => pure (.block body))
      (closedBlock g' >>= fun body => pure (.block body)) :=
    agree_bind hg.block fun _ _ h => agree_pure (.block h)
  simpa only [blockRest, closedBlock, bind_assoc, pure_bind] using h

/-- what stands in braces once it is known whether entries do -/
theorem agree_inBraces (entries : Bool) :
    c.Agree c.Tree
      (if entries = true then do
        let key ← g.expr 0
        if ← atText "|" then dictComprehension g key
        else if ← atText ":" then dictEntries g key
        else blockRest g
      else blockRest g)
      (if entries = true then do
        let key ← g'.expr 0
        if ← atText "|" then dictComprehension g' key
        else if ← atText ":" then dictEntries g' key
        else blockRest g'
      else blockRest g') := by
  have hsteer : ∀ {w : String} {ε : Type} (x : Parse ε), w ∈ steering → Sure w x := fun _ => Or.inl
  refine agree_ite (agree_bind (hg.expr 0) fun k k' hk => ?_) (agree_blockRest hg)
  refine agree_atText (by decide) (hsteer _ (by decide)) (hsteer _ (by decide))
    (agree_dictComprehension hg hk) ?_
  exact agree_atText (by decide) (hsteer _ (by decide)) (hsteer _ (by decide)) (agree_dictEntries hg hk)
    (agree_blockRest hg)

theorem agree_braced : c.Agree c.Tree (braced g) (braced g') := by
  refine agree_open fun ts ts' hn hi => ?_
  have hscan : holdsEntries 1 ts = holdsEntries 1 ts' := by
    rcases hi with h | ⟨d, h⟩
    · exact holdsEntries_like hn.like (d := 0) (Nat.le_refl 1) (Or.inl h)
    · exact holdsEntries_like hn.like (Nat.le_refl 1) (Or.inr h)
  have h : c.Agree c.Tree
      (atText "\x7d" >>= fun b => if b = true then symbol "\x7d" >>= fun _ => pure (.dict []) else _)
      (atText "\x7d" >>= fun b => if b = true then symbol "\x7d" >>= fun _ => pure (.dict []) else _) :=
    agree_ifText (by decide) (by decide) (agree_pure (.dict .nil)) (agree_inBraces hg (holdsEntries 1 ts))
  have h := h ts ts' hn
  rw [bind_ok (atText_run _ ts), bind_ok (atText_run _ ts')] at h ⊢
  simp only [ite_run, bind_ok (get_run ts), bind_ok (get_run ts'), ← hscan] at h ⊢
  exact h

theorem agree_separated (mark : String) : c.Agree c.Tree (separated g mark) (separated g' mark) :=
  agree_mark <| hg.expr 0

theorem agree_listComprehension {b' : Node} (hb : c.Tree b b') :
    c.Agree c.Tree (listComprehension g b) (listComprehension g' b') := by
  refine agree_mark <| agree_then agree_ident fun x => ?_
  refine agree_mark <| agree_bind (hg.expr 0) fun i i' hi => ?_
  refine agree_mark <| agree_bind (hg.expr 0) fun s s' hs => ?_
  refine agree_bind (agree_whileSymbol (agree_separated hg _)) fun cs cs' hc => ?_
  exact agree_mark <| agree_pure (.listComp hb hi hs hc)

theorem agree_bracketed : c.Agree c.Tree (bracketed g) (bracketed g') := by
  refine agree_mark <| agree_ifText (by decide) (by decide) ?_ ?_
  · exact agree_pure (.list .nil)
  · refine agree_bind (hg.expr 0) fun e e' he => agree_atToken (by decide) nofun fun bar => ?_
    cases bar with
    | true => exact agree_listComprehension hg he
    | false =>
      refine agree_bind (agree_whileSymbol (agree_separated hg _)) fun es es' h => ?_
      exact agree_mark <| agree_pure (.list (.cons he h))

/-! ## match -/

omit hg in
theorem matchArm_string (g : Grammar) (s : String) (ts : List Token) :
    matchArm g (⟨.string, s⟩ :: ts) = .error
      (if s = "case" ∨ s = "else" then .expected "KEYWORD" ⟨.string, s⟩
      else .caseExpected (some ⟨.string, s⟩)) := by
  by_cases hc : s = "case"
  · subst hc
    rfl
  · by_cases he : s = "else"
    · subst he
      rfl
    · simp [matchArm, hc, he]

theorem agree_matchArm :
    c.Agree (RProd (Forall₂ c.Tree) (Forall₂ c.Tree)) (matchArm g) (matchArm g') := by
  have hcase : c.Agree (RProd (Forall₂ c.Tree) (Forall₂ c.Tree))
      (do
        keyword "case"
        let first ← g.expr 0
        let rest ← whileNext (atText "|") (separated g "|")
        let body ← braces g
        return (first :: rest, body))
      (do
        keyword "case"
        let first ← g'.expr 0
        let rest ← whileNext (atText "|") (separated g' "|")
        let body ← braces g'
        return (first :: rest, body)) := by
    refine agree_word <| agree_bind (hg.expr 0) fun p p' hp => ?_
    have hbar : ∀ g : Grammar, Stumbles "|" (separated g "|") := fun _ => (stumbles_symbol _ _).bind _
    refine agree_bind (agree_whileText (by decide) (hbar g) (hbar g') (agree_separated hg _)) fun ps ps' h => ?_
    exact agree_bind (agree_braces hg) fun b b' hb => agree_pure (.intro (.cons hp h) hb)
  have helse : c.Agree (RProd (Forall₂ c.Tree) (Forall₂ c.Tree))
      (keyword "else" >>= fun _ => braces g >>= fun body => pure ([], body))
      (keyword "else" >>= fun _ => braces g' >>= fun body => pure ([], body)) :=
    agree_word <| agree_bind (agree_braces hg) fun b b' hb =>
      agree_pure (.intro .nil hb)
  refine agree_fronts rfl rfl (fun {t us us'} _ _ hn => ?_) fun hs _ _ => ?_
  · rw [matchArm, matchArm, bind_ok (atText_run _ (t :: us)), bind_ok (atText_run _ (t :: us'))]
    refine outcome_ite (hcase _ _ hn) ?_
    rw [bind_ok (atText_run _ (t :: us)), bind_ok (atText_run _ (t :: us'))]
    exact outcome_ite (helse _ _ hn) (.fails (similar_refl _))
  · rw [matchArm_string, matchArm_string]
    refine .fails (similar_shown hs (f := fun t => if t.text = "case" ∨ t.text = "else" then
      .expected "KEYWORD" t else .caseExpected (some t)) fun t => ?_)
    split
    · rfl
    · rfl

theorem agree_matchCases : c.Agree c.Tree (matchCases g) (matchCases g') := by
  refine agree_word <| agree_mark ?_
  refine agree_bind (hg.expr 0) fun e e' he => agree_mark ?_
  refine agree_mark ?_
  exact agree_until (by decide) (agree_matchArm hg) fun _ _ h => agree_pure (.matchCase he h)

/-! ## operands -/

theorem agree_notOperand : c.Agree c.Tree (notOperand g) (notOperand g') := by
  refine agree_word <| agree_atToken (by decide) (fun _ => by decide) fun more => ?_
  cases more with
  | true =>
    exact agree_word <| agree_bind (hg.expr 0) fun _ _ h =>
      agree_pure (.danglingOutside h)
  | false => exact agree_bind hg.primary fun _ _ h => agree_pure (.not h)

theorem agree_lambda : c.Agree c.Tree (lambda g) (lambda g') :=
  agree_word <| agree_bind (agree_params hg) fun _ _ hp =>
    agree_bind (agree_braces hg) fun _ _ hb => agree_pure (.lambda hp hb)

theorem agree_parenthesized : c.Agree c.Tree (parenthesized g) (parenthesized g') :=
  agree_mark <| agree_bind (hg.expr 0) fun _ _ h =>
    agree_mark <| agree_pure h

theorem agree_operand (t : Token) : c.Agree c.Tree (operand g t) (operand g' t) := by
  unfold operand
  refine agree_ite (agree_braced hg) (agree_ite (agree_bracketed hg) (agree_ite (agree_matchCases hg) ?_))
  refine agree_ite (agree_notOperand hg) (agree_ite ?neg (agree_ite ?keywords (agree_ite ?rest ?_)))
  case neg =>
    exact agree_then (agree_op _) fun _ => agree_bind hg.primary fun _ _ h => agree_pure (alike_negated h)
  case keywords =>
    exact agree_then (agree_op _) fun _ => agree_bind hg.primary fun _ _ h => agree_pure (.keywordUnpack h)
  case rest =>
    exact agree_then (agree_op _) fun _ => agree_bind hg.primary fun _ _ h => agree_pure (.unpack h)
  exact agree_ite (agree_lambda hg) (agree_ite (agree_parenthesized hg) (agree_throw _))

omit hg in
theorem agree_integer (text : String) : c.Agree c.Tree (integer text) (integer text) := by
  unfold integer
  split
  · exact agree_pure .num
  · exact agree_throw _
  · exact agree_throw _

omit hg in
theorem agree_withFraction (whole : Numeral) (digits : String) :
    c.Agree c.Tree (withFraction whole digits) (withFraction whole digits) := by
  rw [withFraction]
  cases readDouble? (numeralText whole ++ "." ++ digits) with
  | some x => exact agree_pure .num
  | none => exact agree_throw _

theorem agree_primary : c.Agree c.Tree (primary g) (primary g') := by
  refine agree_fronts rfl rfl (fun {t _ _} hk hr hn => ?_) fun hs hr _ => ?_
  · obtain ⟨kind, text⟩ := t
    have ho := agree_operand hg ⟨kind, text⟩ _ _ hn
    cases kind with
    | number =>
      simp only [primary, bind_run, peek_run, List.head?_cons, expectKind_run]
      exact agree_integer text _ _ hr
    | string => exact absurd rfl hk
    | ident => exact agree_nameOrAssignment hg _ _ hn
    | _ => exact ho
  · simp only [primary, bind_run, peek_run, List.head?_cons, expectKind_run]
    exact .ok (.str hs) hr

/-! ## operators -/

omit hg in
theorem agree_afterPoint (h : c.Tree a b) : c.Agree c.Tree (afterPoint a) (afterPoint b) := by
  refine agree_mark <| agree_fronts rfl rfl (fun {t _ _} _ hr _ => ?_) fun _ _ _ => ?_
  · obtain ⟨kind, text⟩ := t
    cases kind with
    | ident =>
      simp only [bind_run, peek_run, List.head?_cons, ident_run, pure_run]
      exact .ok (.getAttr h) hr
    | number =>
      cases h with
      | num =>
        simp only [bind_run, peek_run, List.head?_cons, expectKind_run]
        exact agree_withFraction _ _ _ _ hr
      | _ => exact .fails (similar_refl _)
    | _ => exact .fails (similar_refl _)
  · exact .fails (similar_refl _)

theorem agree_conditional (h : c.Tree a b) : c.Agree c.Tree (conditional g a) (conditional g' b) :=
  agree_mark <| agree_bind (hg.expr 0) fun _ _ hy =>
    agree_mark <| agree_bind (hg.expr 0) fun _ _ hn => agree_pure (.ternary h hy hn)

/-- what an operator gives: a tree and whether more may follow -/
abbrev Extended (c : Change) : Option (Node × Bool) → Option (Node × Bool) → Prop :=
  Option.Rel (RProd c.Tree Eq)

omit hg in
/-- where `not` is followed by a string `in`, one of the two words is no reserved word -/
theorem notIn_stumbles (ht : t.text = "not") (k : Unit → Parse γ) (us : List Token) :
    ∃ what u, (keyword "not" >>= fun _ => keyword "in" >>= k) (t :: ⟨.string, "in"⟩ :: us) =
      .error (.expected what u) ∧ Blamed "in" u := by
  obtain ⟨kind, text⟩ := t
  obtain rfl : text = "not" := ht
  by_cases hk : kind = .keyword
  · subst hk
    obtain ⟨what, h⟩ := (stumbles_keyword "in" "in").bind k us
    exact ⟨what, _, (bind_ok (keyword_run _ _) _).trans h, Or.inl rfl⟩
  · have h : keyword "not" (⟨kind, "not"⟩ :: ⟨.string, "in"⟩ :: us) =
        .error (.expected (Token.Kind.label .keyword) ⟨kind, "not"⟩) := by
      simp [keyword, expect, hk]
    exact ⟨_, _, bind_error h _, Or.inr ⟨rfl, rfl⟩⟩

/-- the word `not` with a changed string after it, which is `in` in one of the runs -/
theorem agree_notIn (h : c.Tree a b) {x x' : Parse (Option (Node × Bool))} (hx : c.Agree c.Extended x x')
    (ht : t.text = "not") {us us' : List Token} (hn : c.Near (t :: us) (t :: us')) (hr : c.Near us us') :
    c.Outcome c.Extended
      ((peekSecond >>= fun p => if (p.map Token.text == some "in") = true then
        keyword "not" >>= fun _ => keyword "in" >>= fun _ => g.expr 0 >>= fun e =>
          pure (some (.outside a e, false)) else x) (t :: us))
      ((peekSecond >>= fun p => if (p.map Token.text == some "in") = true then
        keyword "not" >>= fun _ => keyword "in" >>= fun _ => g'.expr 0 >>= fun e =>
          pure (some (.outside b e, false)) else x') (t :: us')) := by
  have hread : c.Agree c.Extended
      (keyword "not" >>= fun _ => keyword "in" >>= fun _ => g.expr 0 >>= fun e =>
        pure (some (Node.outside a e, false)))
      (keyword "not" >>= fun _ => keyword "in" >>= fun _ => g'.expr 0 >>= fun e =>
        pure (some (Node.outside b e, false))) :=
    agree_word <| agree_word <|
      agree_bind (hg.expr 0) fun _ _ he => agree_pure (.some (.intro (.outside h he) rfl))
  rw [bind_ok (peekSecond_run (t :: us)), bind_ok (peekSecond_run (t :: us')), List.tail_cons, List.tail_cons]
  cases hr.seen (w := "in") (by decide) with
  | same he =>
    rw [he]
    exact outcome_ite (hread _ _ hn) (hx _ _ hn)
  | first hw hs hne =>
    rw [List.head?_cons, Option.map_some, beq_self_eq_true, if_pos rfl]
    obtain ⟨what, u, he, hb⟩ := notIn_stumbles ht _ _
    rw [he]
    exact .lax (.stumble hs hne (by decide) hb)
  | second hw hs hne =>
    rw [List.head?_cons, Option.map_some, beq_self_eq_true, if_pos (c := true = true) rfl]
    obtain ⟨what, u, he, hb⟩ := notIn_stumbles ht _ _
    rw [he]
    exact .trips (.stumble hs hne (by decide) hb)

theorem agree_extend (least : Nat) (h : c.Tree a b) {us us' : List Token} (hn : c.Near (t :: us) (t :: us'))
    (hr : c.Near us us') :
    c.Outcome c.Extended (extend g least a t (t :: us)) (extend g' least b t (t :: us')) := by
  have hcompare : c.Agree c.Extended
      (expectKind .compare >>= fun op => g.expr 0 >>= fun e =>
        pure (some (.compare (CompareOp.ofText op.text) a e, true)))
      (expectKind .compare >>= fun op => g'.expr 0 >>= fun e =>
        pure (some (.compare (CompareOp.ofText op.text) b e, true))) :=
    agree_then (agree_expectKind (by decide)) fun op => agree_bind (hg.expr 0) fun _ _ he =>
      agree_pure (.some (.intro (.compare h he) rfl))
  have hnone : c.Agree c.Extended (pure none) (pure none) := agree_pure .none
  unfold extend
  refine outcome_ite ?inside ?_
  case inside =>
    exact agree_then (agree_keyword _) (fun _ => agree_bind (hg.expr 0) fun _ _ he =>
      agree_pure (.some (.intro (.inside h he) rfl))) _ _ hn
  by_cases hnot : t.text = "not"
  · rw [if_pos hnot, if_pos hnot]
    exact agree_notIn hg h (agree_ite hcompare hnone) hnot hn hr
  rw [if_neg hnot, if_neg hnot]
  refine agree_ite ?and (agree_ite ?or (agree_ite hcompare ?_)) _ _ hn
  case and =>
    exact agree_word <| agree_bind (hg.expr 0) fun _ _ he =>
      agree_pure (.some (.intro (.and h he) rfl))
  case or =>
    exact agree_word <| agree_bind (hg.expr 0) fun _ _ he =>
      agree_pure (.some (.intro (.or h he) rfl))
  cases (if t.kind = .op then ArithOp.ofText? t.text else none) with
  | some op =>
    refine agree_ite hnone (agree_then (agree_expectKind (by decide)) fun _ => ?_)
    exact agree_bind (hg.expr _) fun _ _ he => agree_pure (.some (.intro (.binop h he) rfl))
  | none =>
    refine agree_ite ?call (agree_ite ?subscript (agree_ite ?point (agree_ite ?question hnone)))
    case call => exact agree_bind (agree_arguments hg h) fun _ _ hc => agree_pure (.some (.intro hc rfl))
    case subscript =>
      refine agree_bind (agree_subscript hg) fun r r' hs => ?_
      cases hs with
      | element hi => exact agree_pure (.some (.intro (.index h hi) rfl))
      | range hx hy hz => exact agree_pure (.some (.intro (.slice h hx hy hz) rfl))
    case point => exact agree_bind (agree_afterPoint h) fun _ _ hp => agree_pure (.some (.intro hp rfl))
    case question =>
      exact agree_bind (agree_conditional hg h) fun _ _ hq => agree_pure (.some (.intro hq rfl))

omit hg in
/-- a reserved word that begins a statement is no operator -/
theorem extend_opener (g : Grammar) (least : Nat) (node : Node) (hk : t.kind = .keyword) (ht : t.text ∈ openers)
    (ts : List Token) : extend g least node t ts = .ok (none, ts) := by
  have hne : ∀ w, w ∉ openers → t.text ≠ w := fun w hw he => hw (he ▸ ht)
  simp [extend, hk, hne "in" (by decide), hne "not" (by decide), hne "and" (by decide), hne "or" (by decide),
    hne "(" (by decide), hne "[" (by decide), hne "." (by decide), hne "?" (by decide)]

omit hg in
/-- a string is no operator, but one of a tested text is taken for one -/
theorem extend_string (g : Grammar) (least : Nat) (node : Node) (s : String) (ts : List Token) :
    extend g least node ⟨.string, s⟩ (⟨.string, s⟩ :: ts) = .ok (none, ⟨.string, s⟩ :: ts) ∨
      s ∈ tested ∧ ∃ what, extend g least node ⟨.string, s⟩ (⟨.string, s⟩ :: ts) =
        .error (.expected what ⟨.string, s⟩) := by
  by_cases hw : s ∈ ["in", "and", "or", "(", "[", ".", "?"]
  · right
    simp only [List.mem_cons, List.not_mem_nil, or_false] at hw
    rcases hw with rfl | rfl | rfl | rfl | rfl | rfl | rfl
    all_goals exact ⟨by decide, _, rfl⟩
  · by_cases hnot : s = "not"
    · subst hnot
      unfold extend
      rw [if_neg (by decide), if_pos rfl, bind_ok (peekSecond_run _), List.tail_cons]
      cases ts.head?.map Token.text == some "in" with
      | true => exact Or.inr ⟨by decide, _, rfl⟩
      | false => exact Or.inl rfl
    · left
      simp only [List.mem_cons, List.not_mem_nil, or_false, not_or] at hw
      simp [extend, hw, hnot]

theorem agree_operatorsFrom (least : Nat) (hle : fuel ≤ fuel')
    (h : c.Tree a b) : c.Agree c.Tree (operatorsFrom g least fuel a) (operatorsFrom g' least fuel' b) := by
  induction fuel generalizing fuel' a b with
  | zero => exact fun _ _ _ => .lax .deep
  | succ fuel ih =>
    obtain ⟨fuel', rfl⟩ : ∃ m, fuel' = m + 1 := ⟨fuel' - 1, by omega⟩
    intro ts ts' hn
    -- an operator that both runs see is read by both, and then the loop goes on
    have hstep : ∀ t us us', c.Near (t :: us) (t :: us') → c.Near us us' →
        c.Outcome c.Tree (operatorsFrom g least (fuel + 1) a (t :: us))
          (operatorsFrom g' least (fuel' + 1) b (t :: us')) := by
      intro t us us' hn hr
      rw [operatorsFrom, operatorsFrom, bind_ok (peek_run (t :: us)), bind_ok (peek_run (t :: us'))]
      refine outcome_bind (agree_extend hg least h hn hr) fun o o' vs vs' _ ho hn' => ?_
      cases ho with
      | none => exact .ok h hn'
      | @some p p' hp =>
        obtain ⟨e, more⟩ := p
        obtain ⟨e', more'⟩ := p'
        obtain ⟨he, rfl⟩ := hp
        cases more with
        | true => exact ih (by omega) he _ _ hn'
        | false => exact .ok he hn'
    cases hn.fronts with
    | done _ => exact .ok h hn
    | @opens t us _ hk ho =>
      rw [operatorsFrom, operatorsFrom, bind_ok (peek_run []), bind_ok (peek_run (t :: us)), List.head?_cons]
      simp only [bind_ok (extend_opener g' least b hk ho (t :: us))]
      exact .ok h hn
    | same _ hr => exact hstep _ _ _ hn hr
    | @string s s' us us' hs hr =>
      by_cases he : s = s'
      · subst he
        exact hstep _ _ _ hn hr
      · rw [operatorsFrom, operatorsFrom, bind_ok (peek_run (_ :: us)), bind_ok (peek_run (_ :: us')),
          List.head?_cons, List.head?_cons]
        rcases extend_string g least a s us with hx | ⟨ht, what, hx⟩
        · rcases extend_string g' least b s' us' with hy | ⟨ht, what, hy⟩
          · simp only [bind_ok hx, bind_ok hy]
            exact .ok h hn
          · simp only [bind_error hy]
            exact .trips (.stumble hs he ht (Or.inl rfl))
        · simp only [bind_error hx]
          exact .lax (.stumble hs he ht (Or.inl rfl))

theorem agree_expression (least : Nat) : c.Agree c.Tree (expression g least) (expression g' least) :=
  agree_bind (agree_primary hg) fun _ _ h => agree_bounded fun _ _ hle => agree_operatorsFrom hg least hle h

/-! ## readers of statements -/

omit hg in
theorem agree_nameParts (hle : fuel ≤ fuel') : c.Agree Eq (nameParts fuel) (nameParts fuel') := by
  induction fuel generalizing fuel' with
  | zero => exact fun _ _ _ => .lax .deep
  | succ fuel ih =>
    obtain ⟨fuel', rfl⟩ : ∃ m, fuel' = m + 1 := ⟨fuel' - 1, by omega⟩
    refine agree_then agree_ident fun part => agree_ifText (by decide) (by decide) ?_ (agree_pure rfl)
    exact agree_then (ih (by omega)) fun rest => agree_pure rfl

theorem agree_functionDef : c.Agree (Method.Rel c.Tree) (functionDef g) (functionDef g') := by
  refine agree_then (agree_expectKind (by decide)) fun _ => agree_unlessKind (by decide) _ ?_
  refine agree_loop (R := Eq) (fun _ _ hle => agree_nameParts hle) fun parts _ hp => ?_
  subst hp
  refine agree_bind (agree_params hg) fun ps ps' hps => agree_bind (agree_braces hg) fun b b' hb => ?_
  refine agree_pure (.mk ?_ hb)
  split
  · exact .cons .receiver hps
  · exact hps

theorem agree_condition : c.Agree c.Tree (condition g) (condition g') := agree_parenthesized hg

theorem agree_elifBranch :
    c.Agree (RProd (Option.Rel c.Tree) (Forall₂ c.Tree)) (elifBranch g) (elifBranch g') :=
  agree_word <| agree_bind (agree_condition hg) fun _ _ hc =>
    agree_bind (agree_braces hg) fun _ _ hb => agree_pure (.intro (.some hc) hb)

theorem agree_ifChain : c.Agree c.Tree (ifChain g) (ifChain g') := by
  refine agree_word <| agree_bind (agree_condition hg) fun e e' he => ?_
  refine agree_bind (agree_braces hg) fun b b' hb => ?_
  have helif : ∀ g : Grammar, Stumbles "elif" (elifBranch g) := fun _ => (stumbles_keyword _ _).bind _
  refine agree_bind (agree_whileText (by decide) (helif g) (helif g') (agree_elifBranch hg)) fun m m' hm => ?_
  refine agree_ifText (by decide) (by decide) ?_ ?_
  · refine agree_bind (agree_braces hg) fun l l' hl => agree_pure (.ifChain ?_)
    exact .cons (.intro (.some he) hb) (List.rel_append hm (.cons (.intro .none hl) .nil))
  · exact agree_pure (.ifChain (.cons (.intro (.some he) hb) hm))

theorem agree_forEach : c.Agree c.Tree (forEach g) (forEach g') := by
  unfold forEach
  simp only [pure_bind]
  refine agree_word <| agree_mark ?_
  refine agree_then agree_ident fun x => agree_mark ?_
  refine agree_bind (hg.expr 0) fun i i' hi => agree_ifText (by decide) (by decide) ?_ ?_
  · refine agree_bind (hg.expr 0) fun s s' hs => agree_mark ?_
    exact agree_bind (agree_braces hg) fun _ _ hb => agree_pure (.forEach hi (.some hs) hb)
  · refine agree_mark ?_
    exact agree_bind (agree_braces hg) fun _ _ hb => agree_pure (.forEach hi .none hb)

theorem agree_whileLoop : c.Agree c.Tree (whileLoop g) (whileLoop g') :=
  agree_word <| agree_bind (agree_condition hg) fun _ _ hc =>
    agree_bind (agree_braces hg) fun _ _ hb => agree_pure (.whileLoop hc hb)

omit hg in
/-- a token that is no string is next in both runs -/
theorem Near.same_of_head {ts ts' : List Token} (hn : c.Near ts ts') (h : ts.head? = some t)
    (hk : t.kind ≠ .string) : ∃ us us', ts = t :: us ∧ ts' = t :: us' ∧ c.Near us us' := by
  cases hn.fronts with
  | done _ => cases h
  | opens _ _ _ => cases h
  | same _ hr =>
    cases h
    exact ⟨_, _, rfl, rfl, hr⟩
  | string _ _ =>
    cases h
    exact absurd rfl hk

omit hg in
theorem handlerName_other {ts : List Token} (h : (ts.head? == some ⟨.symbol, "("⟩) = false) :
    handlerName ts = (none, ts) := by
  unfold handlerName
  split
  case h_4 => rfl
  all_goals cases h

omit hg in
theorem handlerName_bare {ts : List Token} (h : (ts.head?.map Token.kind == some .ident) = false) :
    handlerName (⟨.symbol, "("⟩ :: ts) = (none, ts) := by
  cases ts with
  | nil => rfl
  | cons t ts =>
    obtain ⟨kind, text⟩ := t
    cases kind
    case ident => cases h
    all_goals rfl

omit hg in
theorem handlerName_unclosed {name : String} {ts : List Token} (h : (ts.head? == some ⟨.symbol, ")"⟩) = false) :
    handlerName (⟨.symbol, "("⟩ :: ⟨.ident, name⟩ :: ts) = (none, ts) := by
  generalize hl : (⟨.symbol, "("⟩ :: ⟨.ident, name⟩ :: ts : List Token) = l
  unfold handlerName
  split
  · cases hl
    cases h
  · cases hl
    rfl
  · rename_i hne
    cases hl
    exact (hne _ _ rfl).elim
  · rename_i hne
    exact (hne _ hl.symm).elim

omit hg in
/-- each token in the head of a handler is there in both runs or in none -/
theorem handlerName_near {ts ts' : List Token} (hn : c.Near ts ts') :
    (handlerName ts).1 = (handlerName ts').1 ∧ c.Near (handlerName ts).2 (handlerName ts').2 := by
  have ho : (ts.head? == some ⟨.symbol, "("⟩) = (ts'.head? == some ⟨.symbol, "("⟩) :=
    hn.head_eq (by decide) nofun
  cases h : (ts.head? == some (⟨.symbol, "("⟩ : Token)) with
  | false =>
    rw [handlerName_other h, handlerName_other (ho.symm.trans h)]
    exact ⟨rfl, hn⟩
  | true =>
    obtain ⟨us, us', rfl, rfl, hu⟩ := hn.same_of_head (eq_of_beq h) (by decide)
    have hi : (us.head?.map Token.kind == some .ident) = (us'.head?.map Token.kind == some .ident) :=
      hu.kind_eq (by decide)
    cases h : (us.head?.map Token.kind == some .ident) with
    | false =>
      rw [handlerName_bare h, handlerName_bare (hi.symm.trans h)]
      exact ⟨rfl, hu⟩
    | true =>
      obtain ⟨⟨kind, name⟩, hhead, hkind⟩ := Option.map_eq_some_iff.mp (eq_of_beq h)
      obtain rfl : kind = .ident := hkind
      obtain ⟨vs, vs', rfl, rfl, hv⟩ := hu.same_of_head hhead nofun
      have hc : (vs.head? == some ⟨.symbol, ")"⟩) = (vs'.head? == some ⟨.symbol, ")"⟩) :=
        hv.head_eq (by decide) nofun
      cases h : (vs.head? == some (⟨.symbol, ")"⟩ : Token)) with
      | false =>
        rw [handlerName_unclosed h, handlerName_unclosed (hc.symm.trans h)]
        exact ⟨rfl, hv⟩
      | true =>
        obtain ⟨ws, ws', rfl, rfl, hw⟩ := hv.same_of_head (eq_of_beq h) (by decide)
        exact ⟨rfl, hw⟩

theorem agree_tryCatch : c.Agree c.Tree (tryCatch g) (tryCatch g') := by
  refine agree_word <| agree_bind (agree_braces hg) fun b b' hb => ?_
  refine agree_then (agree_keyword _) fun _ ts ts' hn => ?_
  obtain ⟨hname, hrest⟩ := handlerName_near hn
  rw [bind_ok (get_run ts), bind_ok (get_run ts')]
  generalize handlerName ts = p at hname hrest ⊢
  generalize handlerName ts' = p' at hname hrest ⊢
  obtain ⟨name, us⟩ := p
  obtain ⟨name', us'⟩ := p'
  obtain rfl : name = name' := hname
  show c.Outcome c.Tree ((braces g >>= fun h => pure (.tryCatch name b h)) us)
    ((braces g' >>= fun h => pure (.tryCatch name b' h)) us')
  exact agree_bind (agree_braces hg) (fun h h' hh => agree_pure (.tryCatch hb hh)) us us' hrest

theorem agree_member : c.Agree (Member.Rel c.Tree) (member g) (member g') := by
  unfold member
  simp only [pure_bind]
  refine agree_fronts rfl rfl (fun {t us us'} _ _ hn => ?_) fun hs _ _ => ?_
  · rw [bind_ok (peek_run (t :: us)), bind_ok (peek_run (t :: us')), List.head?_cons, List.head?_cons]
    generalize some t = o
    split
    · exact agree_bind (agree_functionDef hg) (fun _ _ h => agree_pure (.method h)) _ _ hn
    · exact agree_bind hg.classDecl (fun _ _ h => agree_pure (.nested h)) _ _ hn
    · refine agree_then agree_ident (fun _ => agree_ifText (by decide) (by decide) ?_ ?_) _ _ hn
      · exact agree_bind (hg.expr 0) fun v v' hv => agree_then (agree_optionalSymbol (by decide)) fun _ =>
          agree_pure (.field (.some hv))
      · exact agree_then (agree_optionalSymbol (by decide)) fun _ => agree_pure (.field .none)
    · exact .fails (similar_refl _)
  · exact .fails (similar_shown hs (f := fun t => .memberExpected (some t)) fun _ => rfl)

omit hg in
theorem agree_parents : c.Agree Eq parents parents := by
  have hp : c.Agree Eq parent parent := agree_then agree_ident fun _ =>
    agree_then (agree_optionalSymbol (by decide)) fun _ => agree_pure rfl
  refine agree_ifText (by decide) (by decide) (agree_until (by decide) hp fun _ _ h => ?_) (agree_pure rfl)
  rw [List.forall₂_eq_eq_eq] at h
  exact agree_pure h

theorem agree_classDecl : c.Agree (ClassDecl.Rel c.Tree) (classDecl g) (classDecl g') := by
  refine agree_word <| agree_then agree_ident fun name => ?_
  refine agree_then agree_parents fun ps => agree_mark ?_
  refine agree_until (by decide) (agree_member hg) fun ms ms' h => ?_
  exact agree_pure (.mk (rel_fieldsOf h) (rel_methodsOf h) (rel_nestedOf h))

theorem agree_includeFile : c.Agree c.Tree (includeFile g) (includeFile g') := by
  refine agree_then (agree_expect (by decide) _) fun _ => agree_ifText (by decide) (by decide) ?_ ?_
  · exact agree_bind (hg.expr 0) fun _ _ he => agree_mark <|
      agree_pure (.call .var (.cons he .nil) .nil)
  · exact agree_bind agree_expectString fun _ _ h => agree_pure (.includeFile h)

/-! ## statements and blocks -/

theorem agree_form (w : String) : c.Agree c.Tree (form g w) (form g' w) := by
  by_cases hw : w ∈ statementWords
  · simp only [statementWords, List.mem_cons, List.not_mem_nil, or_false] at hw
    rcases hw with rfl | rfl | rfl | rfl | rfl | rfl | rfl | rfl | rfl | rfl | rfl | rfl | rfl | rfl
    · exact agree_bind (agree_functionDef hg) fun _ _ h => agree_pure (.define h)
    · exact agree_ifChain hg
    · exact agree_forEach hg
    · exact agree_whileLoop hg
    · exact agree_word <| agree_pure .breakLoop
    · exact agree_word <| agree_pure .continueLoop
    · refine agree_word <| agree_atText (by decide) ?_ ?_ (agree_pure (.ret .none)) ?_
      · exact Or.inl (by decide)
      · exact Or.inl (by decide)
      · exact agree_bind (hg.expr 0) fun _ _ h => agree_pure (.ret (.some h))
    · exact agree_word <| agree_then agree_ident fun _ => agree_pure .global
    · exact agree_tryCatch hg
    · exact agree_word <| agree_bind (hg.expr 0) fun _ _ h => agree_pure (.throw h)
    · exact agree_bind (agree_classDecl hg) fun _ _ h => agree_pure (.classDef h)
    · exact agree_includeFile hg
    · exact agree_embedded
    · exact agree_matchCases hg
  · rw [form_expression hw, form_expression hw]
    exact agree_expression hg 0

theorem agree_statement : c.Agree c.Tree (statement g) (statement g') := by
  refine agree_fronts rfl rfl (fun {t _ _} _ _ hn => ?_) fun {s s' us us'} hs _ hn => ?_
  · rw [statement_form, statement_form]
    exact agree_form hg t.text _ _ hn
  · rw [statement_form, statement_form]
    by_cases he : s = s'
    · subst he
      exact agree_form hg s _ _ hn
    · by_cases hw : s ∈ statementWords
      · obtain ⟨what, h⟩ := stumbles_form g hw us
        rw [h]
        exact .lax (.stumble hs he (List.mem_append_left _ hw) (Or.inl rfl))
      · by_cases hw' : s' ∈ statementWords
        · obtain ⟨what, h⟩ := stumbles_form g' hw' us'
          rw [h]
          exact .trips (.stumble hs he (List.mem_append_left _ hw') (Or.inl rfl))
        · rw [form_expression hw, form_expression hw']
          exact agree_expression hg 0 _ _ hn

theorem agree_closedFrom (hle : fuel ≤ fuel') :
    c.Agree (Forall₂ c.Tree) (closedFrom g fuel) (closedFrom g' fuel') := by
  induction fuel generalizing fuel' with
  | zero => exact fun _ _ _ => .lax .deep
  | succ fuel ih =>
    obtain ⟨fuel', rfl⟩ : ∃ m, fuel' = m + 1 := ⟨fuel' - 1, by omega⟩
    have hclose : c.Agree (Forall₂ c.Tree) (symbol "\x7d" >>= fun _ => pure [])
        (symbol "\x7d" >>= fun _ => pure []) := agree_mark <| agree_pure .nil
    have hmore : c.Agree (Forall₂ c.Tree)
        (statement g >>= fun s => closedFrom g fuel >>= fun rest => pure (s :: rest))
        (statement g' >>= fun s => closedFrom g' fuel' >>= fun rest => pure (s :: rest)) :=
      agree_bind (agree_statement hg) fun _ _ h => agree_bind (ih (by omega)) fun _ _ hs =>
        agree_pure (.cons h hs)
    refine agree_fronts rfl rfl (fun _ _ hn => ?_) fun hs _ hn => ?_
    · rw [closedFrom_step, closedFrom_step]
      exact outcome_ite (hclose _ _ hn) (hmore _ _ hn)
    · rw [closedFrom_step, closedFrom_step]
      simp only [← swap_text_iff hs (w := "\x7d") (by decide)]
      exact outcome_ite (hclose _ _ hn) (hmore _ _ hn)

end

/-- **The readers of all depths agree**, the second one being at least as deep. -/
theorem grammar_agree (c : Change) {n m : Nat} (hle : n ≤ m) : c.Agreeing (grammar n) (grammar m) := by
  induction n generalizing m with
  | zero =>
    exact ⟨fun _ _ _ _ => .lax .deep, fun _ _ _ => .lax .deep, fun _ _ _ => .lax .deep,
      fun _ _ _ => .lax .deep⟩
  | succ n ih =>
    obtain ⟨m, rfl⟩ : ∃ k, m = k + 1 := ⟨m - 1, by omega⟩
    have hg := ih (m := m) (by omega)
    refine ⟨agree_expression hg, agree_primary hg, ?_, agree_classDecl hg⟩
    exact agree_bounded fun _ _ hf => agree_closedFrom hg hf

/-- programs, where nothing is put at the end -/
theorem agree_program {g g' : Grammar} (hg : c.Agreeing g g') (ht : c.tail = []) (hle : fuel ≤ fuel') :
    c.Agree (Forall₂ c.Tree) (statementsFrom g none fuel) (statementsFrom g' none fuel') := by
  induction fuel generalizing fuel' with
  | zero => exact fun _ _ _ => .lax .deep
  | succ fuel ih =>
    obtain ⟨fuel', rfl⟩ : ∃ m, fuel' = m + 1 := ⟨fuel' - 1, by omega⟩
    have hmore : c.Agree (Forall₂ c.Tree)
        (statement g >>= fun s => statementsFrom g none fuel >>= fun rest => pure (s :: rest))
        (statement g' >>= fun s => statementsFrom g' none fuel' >>= fun rest => pure (s :: rest)) :=
      agree_bind (agree_statement hg) fun _ _ h => agree_bind (ih (by omega)) fun _ _ hs =>
        agree_pure (.cons h hs)
    intro ts ts' hn
    cases hn.fronts with
    | done _ => exact .ok .nil hn
    | opens h _ _ => cases ht.symm.trans h
    | same _ _ =>
      rw [statementsFrom_more, statementsFrom_more]
      exact hmore _ _ hn
    | string _ _ =>
      rw [statementsFrom_more, statementsFrom_more]
      exact hmore _ _ hn

end Change

end BraceScript
