import BraceScript.Proofs.Print.Pieces

/-!
# Lists and dictionaries

A brace opens a dictionary if a colon stands among the tokens before its closing brace, at its own
depth of nesting, and a block otherwise. The tokens of an expression are balanced, so that the search
for the colon goes over them.

* `primary_list`   a list literal is read back
* `skips_print`    the search for a colon leaves an expression at the depth at which it entered
* `primary_dict`   a dictionary literal is read back
-/

namespace BraceScript

namespace Parse

variable {g : Grammar} {rest : List Token}

/-! ## lists -/

theorem takesNext_items {items : List Expr} (h : ∀ e ∈ items, Reads g e) :
    List.Forall₂ (TakesNext (separated g ",")) (Expr.itemTokens items) (Expr.itemNodes items) := by
  induction items with
  | nil => exact List.Forall₂.nil
  | cons e items ih =>
    have he : TakesNext (separated g ",") e.wrapped e.node := by
      intro rest hr
      simp [separated, h e List.mem_cons_self 0 rest hr]
    exact List.Forall₂.cons he (ih fun x hx => h x (List.mem_cons_of_mem _ hx))

theorem primary_bracket (g : Grammar) (ts : List Token) :
    primary g (mark "[" :: ts) = bracketed g (mark "[" :: ts) := rfl

theorem primary_list {items : List Expr} (h : ∀ e ∈ items, Reads g e) (rest : List Token) :
    primary g ((Expr.list items).print ++ rest) = .ok ((Expr.list items).node, rest) := by
  cases items with
  | nil => rfl
  | cons e items =>
    have hp : (Expr.list (e :: items)).print ++ rest = mark "[" :: (e.wrapped ++
        (((Expr.itemTokens items).flatMap fun q => mark "," :: q) ++ mark "]" :: rest)) := by
      simp [Expr.print, Expr.itemTokens, commas_cons, Expr.wrapped]
    have he := ends_flatMap_comma (Expr.itemTokens items) (t := mark "]") (by decide) rest
    have hw := whileNext_commas (takesNext_items fun x hx => h x (List.mem_cons_of_mem _ hx)) rest
    rw [hp]
    generalize ((Expr.itemTokens items).flatMap fun q => mark "," :: q) ++ mark "]" :: rest = tail
      at he hw ⊢
    have hx := h e List.mem_cons_self 0 tail he
    have hbar : tail.head? ≠ some (mark "|") := he.head_ne (by decide)
    obtain ⟨t, ts, ht, ho, _⟩ := e.wrapped_opens
    have hne : t.text ≠ "]" := ho.ne (by decide) (by decide)
    rw [ht, List.cons_append] at hx ⊢
    rw [primary_bracket]
    simp_all [bracketed, Expr.node, Expr.itemNodes]

/-! ## dictionaries -/

/-- tokens that the search for an entry of a dictionary passes, or finds one in -/
def Skips (ts : List Token) : Prop :=
  ∀ depth rest, holdsEntries (depth + 1) rest = true → holdsEntries (depth + 1) (ts ++ rest) = true

theorem skips_nil : Skips [] := fun _ _ h => h

theorem Skips.append {ts us : List Token} (ht : Skips ts) (hu : Skips us) : Skips (ts ++ us) := by
  intro depth rest h
  rw [List.append_assoc]
  exact ht depth _ (hu depth rest h)

theorem Skips.cons {t : Token} {ts : List Token} (h1 : t.text ≠ "\x7b") (h2 : t.text ≠ "\x7d")
    (hs : Skips ts) : Skips (t :: ts) := by
  intro depth rest h
  have hr := hs depth rest h
  rw [List.cons_append, holdsEntries, if_neg h1, if_neg h2]
  split
  · rfl
  · exact hr

theorem Skips.braces {ts : List Token} (hs : Skips ts) :
    Skips (mark "\x7b" :: ts ++ [mark "\x7d"]) := by
  intro depth rest h
  have ho : (mark "\x7b").text = "\x7b" := rfl
  have hc : (mark "\x7d").text = "\x7d" := rfl
  have hi : holdsEntries (depth + 1 + 1) (mark "\x7d" :: rest) = true := by
    rw [holdsEntries, if_neg (by decide), if_pos hc, if_neg (by omega)]
    exact h
  rw [List.cons_append, List.cons_append, holdsEntries, if_pos ho, List.append_assoc]
  exact hs (depth + 1) _ hi

theorem Skips.commas {ps : List (List Token)} (h : ∀ p ∈ ps, Skips p) : Skips (commas ps) := by
  induction ps with
  | nil => exact skips_nil
  | cons p ps ih =>
    have hp := h p List.mem_cons_self
    have ih' := ih fun q hq => h q (List.mem_cons_of_mem _ hq)
    cases ps with
    | nil => exact hp
    | cons q ps => exact hp.append (ih'.cons (by decide) (by decide))

theorem Skips.parens {ts : List Token} (h : Skips ts) : Skips (parens ts) :=
  (h.cons (by decide) (by decide)).append (skips_nil.cons (by decide) (by decide))

theorem Skips.enclose {e : Expr} (h : Skips e.print) : Skips (e.enclose e.print) := by
  unfold Expr.enclose
  split
  · exact h
  · exact h.parens

theorem Skips.free {t : Token} {ts : List Token} (h : t.text ∉ reservedTexts) (hs : Skips ts) :
    Skips (t :: ts) :=
  hs.cons (fun e => h (e ▸ by decide)) (fun e => h (e ▸ by decide))

theorem Skips.named {p : Word × Expr} (h : Skips p.2.print) : Skips (Expr.namedPiece p) :=
  (h.enclose.cons (by decide) (by decide)).free p.1.free

theorem skips_option {o : Option Expr} (h : ∀ e ∈ o, Skips e.print) : Skips (Expr.optionTokens o) := by
  cases o with
  | none => exact skips_nil
  | some e => exact (h e rfl).enclose

theorem skips_step {o : Option Expr} (h : ∀ e ∈ o, Skips e.print) : Skips (Expr.stepTokens o) := by
  cases o with
  | none => exact skips_nil
  | some e => exact (h e rfl).enclose.cons (by decide) (by decide)

theorem skips_pieces {ι : Type} {xs : List ι} {f : ι → List Token} (h : ∀ x ∈ xs, Skips (f x)) :
    ∀ p ∈ xs.map f, Skips p := by
  intro p hp
  obtain ⟨x, hx, rfl⟩ := List.mem_map.mp hp
  exact h x hx

/-- the tokens of an expression have their braces in pairs -/
theorem skips_print {e : Expr} (hs : e.Sound) : Skips e.print := by
  induction hs with
  | num => exact skips_nil.free (toString_free _)
  | str => exact skips_nil.free (Word.free _)
  | var => exact skips_nil.free (Word.free _)
  | list _ ih =>
    rw [Expr.print, Expr.itemTokens_eq]
    have hi := Skips.commas (skips_pieces fun e he => (ih e he).enclose)
    exact (hi.cons (by decide) (by decide)).append (skips_nil.cons (by decide) (by decide))
  | dict _ _ ihk ihv =>
    rw [Expr.print, Expr.entryTokens_eq]
    have hi := Skips.commas (skips_pieces fun p hp =>
      (ihk p hp).enclose.append ((ihv p hp).enclose.cons (t := mark ":") (by decide) (by decide)))
    exact hi.braces
  | @binop op l r _ _ ihl ihr =>
    have ho : ∀ op : ArithOp, op.text ≠ "\x7b" ∧ op.text ≠ "\x7d" := by intro op; cases op <;> decide
    exact ihl.enclose.append (ihr.enclose.cons (ho op).1 (ho op).2)
  | @compare op l r sign _ _ ihl ihr =>
    have ho : op.text ≠ "\x7b" ∧ op.text ≠ "\x7d" := by
      cases op with
      | other s => exact absurd rfl (sign s)
      | _ => decide
    exact ihl.enclose.append (ihr.enclose.cons ho.1 ho.2)
  | inside _ _ ihl ihr => exact ihl.enclose.append (ihr.enclose.cons (by decide) (by decide))
  | outside _ _ ihl ihr =>
    exact ihl.enclose.append ((ihr.enclose.cons (by decide) (by decide)).cons (by decide) (by decide))
  | and _ _ ihl ihr => exact ihl.enclose.append (ihr.enclose.cons (by decide) (by decide))
  | or _ _ ihl ihr => exact ihl.enclose.append (ihr.enclose.cons (by decide) (by decide))
  | not _ ih => exact ih.enclose.cons (by decide) (by decide)
  | ternary _ _ _ ihc ihy ihn =>
    exact ihc.enclose.append ((ihy.enclose.append (ihn.enclose.cons (by decide) (by decide))).cons
      (by decide) (by decide))
  | call _ _ _ _ ihf iha ihk =>
    rw [Expr.print, Expr.argTokens_eq, Expr.keywordTokens_eq]
    refine ihf.enclose.append (Skips.commas fun p hp => ?_).parens
    rcases List.mem_append.mp hp with h | h
    · refine skips_pieces (fun q hq => ?_) p h
      obtain ⟨passing, e⟩ := q
      have he := (iha _ hq).enclose
      cases passing with
      | plain => exact he
      | unpack => exact he.cons (by decide) (by decide)
      | keywordUnpack => exact he.cons (by decide) (by decide)
    · exact skips_pieces (fun q hq => (ihk q hq).named) p h
  | getAttr _ ih =>
    exact ih.enclose.append ((skips_nil.free (Word.free _)).cons (by decide) (by decide))
  | getItem _ ih =>
    exact ((ih.enclose.cons (by decide) (by decide)).free (Word.free _)).append
      (skips_nil.cons (by decide) (by decide))
  | index _ _ iho ihi =>
    exact (iho.parens.append (ihi.enclose.cons (by decide) (by decide))).append
      (skips_nil.cons (by decide) (by decide))
  | slice _ _ _ _ iho ih1 ih2 ih3 =>
    rw [Expr.print]
    exact (((iho.parens.append ((skips_option ih1).cons (by decide) (by decide))).append
      ((skips_option ih2).cons (by decide) (by decide))).append (skips_step ih3)).append
        (skips_nil.cons (by decide) (by decide))
  | @lambda params _ _ _ ihp ihb =>
    have hp : ∀ p ∈ params, Skips (Expr.paramPiece p) := by
      intro p hp
      obtain ⟨name, value⟩ := p
      cases value with
      | none => exact skips_nil.free name.free
      | some e => exact Skips.named (p := (name, e)) (ihp _ hp e rfl)
    have hh := (Skips.commas (skips_pieces hp)).parens.cons (t := reserved "lambda") (by decide)
      (by decide)
    rw [Expr.print, Expr.paramTokens_eq, List.append_assoc]
    exact hh.append ihb.enclose.braces

theorem entry_run {k v : Expr} (hk : Reads g k) (hv : Reads g v) :
    TakesNext (entry g) (Expr.entryPiece (k, v)) (k.node, v.node) := by
  intro rest h
  have hx := hk 0 (mark ":" :: (v.wrapped ++ rest)) (ends_cons _ (by decide))
  have hy := hv 0 rest h
  rw [mark] at hx
  simp [entry, Expr.entryPiece, optionalSymbol, hx, hy]

theorem takesNext_entries {entries : List (Expr × Expr)} (hk : ∀ p ∈ entries, Reads g p.1)
    (hv : ∀ p ∈ entries, Reads g p.2) :
    List.Forall₂ (TakesNext (entry g)) (Expr.entryTokens entries) (Expr.entryNodes entries) := by
  induction entries with
  | nil => exact List.Forall₂.nil
  | cons p entries ih =>
    have hp := entry_run (hk p List.mem_cons_self) (hv p List.mem_cons_self)
    exact List.Forall₂.cons hp (ih (fun q hq => hk q (List.mem_cons_of_mem _ hq))
      (fun q hq => hv q (List.mem_cons_of_mem _ hq)))

theorem primary_brace (g : Grammar) (ts : List Token) :
    primary g (mark "\x7b" :: ts) = braced g (mark "\x7b" :: ts) := rfl

theorem primary_dict {entries : List (Expr × Expr)} (hs : ∀ p ∈ entries, p.1.Sound)
    (hk : ∀ p ∈ entries, Reads g p.1) (hv : ∀ p ∈ entries, Reads g p.2) (rest : List Token) :
    primary g ((Expr.dict entries).print ++ rest) = .ok ((Expr.dict entries).node, rest) := by
  cases entries with
  | nil => rfl
  | cons p entries =>
    obtain ⟨k, v⟩ := p
    have hp : (Expr.dict ((k, v) :: entries)).print ++ rest = mark "\x7b" :: (k.wrapped ++ mark ":" ::
        (v.wrapped ++ (((Expr.entryTokens entries).flatMap fun q => mark "," :: q) ++
          mark "\x7d" :: rest))) := by
      simp [Expr.print, Expr.entryTokens, commas_cons, Expr.wrapped]
    have he := ends_flatMap_comma (Expr.entryTokens entries) (t := mark "\x7d") (by decide) rest
    have hu := untilText_entries (takesNext_entries (fun q hq => hk q (List.mem_cons_of_mem _ hq))
      (fun q hq => hv q (List.mem_cons_of_mem _ hq))) rest
    rw [hp]
    generalize ((Expr.entryTokens entries).flatMap fun q => mark "," :: q) ++ mark "\x7d" :: rest =
      tail at he hu ⊢
    have hx := hk (k, v) List.mem_cons_self 0 (mark ":" :: (v.wrapped ++ tail))
      (ends_cons _ (by decide))
    have hy := hv (k, v) List.mem_cons_self 0 tail he
    -- the colon after the first key tells a dictionary from a block
    have hc : holdsEntries 1 (mark ":" :: (v.wrapped ++ tail)) = true := by simp [holdsEntries]
    have hh := (skips_print (hs (k, v) List.mem_cons_self)).enclose 0 _ hc
    obtain ⟨t, ts, ht, ho, _⟩ := k.wrapped_opens
    have hne : t.text ≠ "\x7d" := ho.ne (by decide) (by decide)
    rw [← Expr.wrapped, ht, List.cons_append] at hh
    rw [ht, List.cons_append] at hx ⊢
    rw [primary_brace]
    simp_all [braced, dictEntries, Expr.node, Expr.entryNodes]

end Parse

end BraceScript
