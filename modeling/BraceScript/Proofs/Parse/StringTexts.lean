import BraceScript.Proofs.Parse.AgreeReaders
import BraceScript.Proofs.Parse.Progress
import Mathlib.Data.Fintype.EquivFin

/-!
# The texts of strings in programs

A reader looks for marks and words by the text of a token, and mostly not by its kind, so a string that is
spelled as one of them is taken for it. All other texts of strings are only carried into the tree.

* `Filled`              trees with a text in the place of a mark
* `parse_of_template`   a program with a text in place of a mark is read as the program with the mark
* `Replaceable`         a text that may be put into every string of every program
* `string_texts`        which texts are, and what the others do
-/

namespace BraceScript

open Parse
open List (Forall₂)

/-! ## programs with a mark in them -/

/-- the text, if it is the mark, is replaced -/
def Fills (mark text s s' : String) : Prop := s' = if s = mark then text else s

/-- the trees have the text where the template has the mark, and are equal otherwise -/
def Filled (mark text : String) : List Node → List Node → Prop := Forall₂ (Node.Alike (Fills mark text))

theorem fills_mark (mark text : String) : Fills mark text mark text := (if_pos rfl).symm

theorem fills_self {mark text s : String} (h : s ≠ mark) : Fills mark text s s := (if_neg h).symm

theorem Fills.inert {mark text : String} (hm : mark ∉ steering) (ht : text ∉ steering) {s s' : String}
    (h : Fills mark text s s') : s = s' ∨ s ∉ steering ∧ s' ∉ steering := by
  by_cases he : s = mark
  · rw [Fills, if_pos he] at h
    rw [he, h]
    exact Or.inr ⟨hm, ht⟩
  · rw [Fills, if_neg he] at h
    exact Or.inl h.symm

namespace Change

theorem tail_nil : ([] : List Token) = [] ∨ OpensStatement [] := Or.inl rfl

/-- the mark is replaced by a text in all strings -/
def filling (mark text : String) (hm : mark ∉ steering) (ht : text ∉ steering) : Change :=
  ⟨Fills mark text, [], Fills.inert hm ht, tail_nil⟩

variable {mark text : String} {hm : mark ∉ steering} {ht : text ∉ steering}

theorem filling_like_self {ts : List Token} (h : mark ∉ ts.map Token.text) :
    (filling mark text hm ht).Like ts ts := by
  induction ts with
  | nil => exact .nil
  | cons t ts ih =>
    rw [List.map_cons, List.mem_cons, not_or] at h
    obtain ⟨kind, s⟩ := t
    refine .cons ?_ (ih h.2)
    by_cases hk : kind = .string
    · subst hk
      exact .string (fills_self (Ne.symm h.1))
    · exact .same hk

theorem filling_near {pre post : List Token} (h : mark ∉ (pre ++ post).map Token.text) :
    (filling mark text hm ht).Near (pre ++ ⟨.string, mark⟩ :: post) (pre ++ ⟨.string, text⟩ :: post) := by
  refine ⟨?_, Or.inl rfl⟩
  induction pre with
  | nil => exact .cons (.string (fills_mark mark text)) (filling_like_self h)
  | cons t pre ih =>
    rw [List.cons_append, List.map_cons, List.mem_cons, not_or] at h
    obtain ⟨kind, s⟩ := t
    refine .cons ?_ (ih h.2)
    by_cases hk : kind = .string
    · subst hk
      exact .string (fills_self (Ne.symm h.1))
    · exact .same hk

/-- the only texts that are changed are the mark and what it is replaced by -/
theorem filling_swap {s s' : String} (h : (filling mark text hm ht).swap s s') (hne : s ≠ s') :
    s = mark ∧ s' = text := by
  have h : s' = if s = mark then text else s := h
  by_cases he : s = mark
  · rw [if_pos he] at h
    exact ⟨he, h⟩
  · rw [if_neg he] at h
    exact absurd h.symm hne

theorem outcome_program {c : Change} (h : c.tail = []) {ts ts' : List Token} (hn : c.Near ts ts') :
    c.Outcome (Forall₂ c.Tree) (program (grammar (ts.length + 1)) ts)
      (program (grammar (ts'.length + 1)) ts') := by
  have hle := Nat.succ_le_succ hn.length_le
  exact agree_program (grammar_agree c hle) h hle ts ts' hn

end Change

variable {text : String} {pre post : List Token}

open Change

/-- a program gives a template when one of its strings gets a text that is nowhere looked for -/
theorem template_of_parse {mark : String} (hm : mark ∉ steering ++ tested) (ht : text ∉ steering)
    (hf : mark ∉ (pre ++ post).map Token.text) {body : List Node}
    (h : parse (pre ++ ⟨.string, text⟩ :: post) = .ok body) :
    ∃ template, parse (pre ++ ⟨.string, mark⟩ :: post) = .ok template ∧ Filled mark text template body := by
  obtain ⟨hms, hmt⟩ := not_or.mp (mt List.mem_append.mpr hm)
  have hn : (filling mark text hms ht).Near _ _ := filling_near hf
  have ho := outcome_program rfl hn
  rw [program_of_parse h] at ho
  cases hp : parse (pre ++ ⟨.string, mark⟩ :: post) with
  | ok template =>
    rw [program_of_parse hp] at ho
    cases ho with
    | ok h _ => exact ⟨template, rfl, h⟩
  | error e =>
    -- the error of a reader with a mark before it would be one with the text before it
    have he := founded_of_parse hp
    rw [program_of_parse_error hp] at ho
    cases ho with
    | lax h =>
      cases h with
      | deep => cases he
      | atEnd h => exact absurd rfl h
      | stumble hs hne hw _ => exact absurd ((filling_swap hs hne).1 ▸ hw) hmt

/-- a template gives a program for every text, except that a text that is looked for may not fit -/
theorem parse_of_template {mark : String} (hm : mark ∉ steering) (ht : text ∉ steering)
    (hf : mark ∉ (pre ++ post).map Token.text) {template : List Node}
    (h : parse (pre ++ ⟨.string, mark⟩ :: post) = .ok template) :
    (∃ body, parse (pre ++ ⟨.string, text⟩ :: post) = .ok body ∧ Filled mark text template body) ∨
      text ∈ tested ∧ ∃ what t, Blamed text t ∧
        parse (pre ++ ⟨.string, text⟩ :: post) = .error (.expected what t) := by
  have hn : (filling mark text hm ht).Near _ _ := filling_near hf
  have ho := outcome_program rfl hn
  rw [program_of_parse h] at ho
  cases hp : parse (pre ++ ⟨.string, text⟩ :: post) with
  | ok body =>
    rw [program_of_parse hp] at ho
    cases ho with
    | ok h _ => exact Or.inl ⟨body, rfl, h⟩
  | error e =>
    rw [program_of_parse_error hp] at ho
    cases ho with
    | trips h =>
      cases h with
      | stumble hs hne hw hb =>
        obtain ⟨-, rfl⟩ := filling_swap hs hne
        exact Or.inr ⟨hw, _, _, hb, rfl⟩

theorem exists_text_notMem (texts : List String) : ∃ mark, mark ∉ texts := by
  have hinj : Function.Injective fun n => String.ofList (List.replicate n 'a') := by
    intro n m h
    have hl := congrArg (fun s => s.toList.length) h
    simpa using hl
  have : Infinite String := Infinite.of_injective _ hinj
  obtain ⟨mark, hm⟩ := Infinite.exists_notMem_finset texts.toFinset
  exact ⟨mark, fun h => hm (List.mem_toFinset.mpr h)⟩

/-! ## texts that may be put anywhere -/

/-- the text may be put into every string of every program: the program is read as before, and the trees
differ in the place of that string -/
def Replaceable (text : String) : Prop :=
  ∀ (pre post : List Token) (old : String) (body : List Node), old ∉ steering →
    parse (pre ++ ⟨.string, old⟩ :: post) = .ok body →
      ∃ body' mark template, parse (pre ++ ⟨.string, text⟩ :: post) = .ok body' ∧
        mark ∉ (pre ++ post).map Token.text ∧ Filled mark old template body ∧ Filled mark text template body'

/-- a program with a string in it that is read in another way, or not at all, with the text -/
def Spoils (text : String) (pre post : List Token) : Prop :=
  ∃ body, parse (pre ++ ⟨.string, "a"⟩ :: post) = .ok body ∧
    ∀ body', parse (pre ++ ⟨.string, text⟩ :: post) = .ok body' → body.length ≠ body'.length

theorem Spoils.not_replaceable (h : Spoils text pre post) : ¬ Replaceable text := by
  intro hr
  obtain ⟨body, ha, hne⟩ := h
  obtain ⟨body', mark, template, hw, -, hold, hnew⟩ := hr pre post "a" body (by decide) ha
  exact hne body' hw (hold.length_eq.symm.trans hnew.length_eq)

theorem spoils_of_error {body : List Node} {e : ParseError}
    (ha : parse (pre ++ ⟨.string, "a"⟩ :: post) = .ok body)
    (he : parse (pre ++ ⟨.string, text⟩ :: post) = .error e) : Spoils text pre post := by
  refine ⟨body, ha, fun body' h => ?_⟩
  rw [he] at h
  cases h

/-- a place for a string, and texts that are looked for there -/
structure StringPlace where
  pre : List Token
  post : List Token
  texts : List String

def stringPlaces : List StringPlace :=
  [
    -- at the beginning of a statement
    ⟨[], [], statementWords⟩,
    -- after an operand
    ⟨[⟨.ident, "x"⟩], [], ["in", "and", "or", "(", "[", ".", "?"]⟩,
    ⟨[⟨.ident, "x"⟩], [⟨.keyword, "in"⟩, ⟨.ident, "y"⟩], ["not"]⟩,
    -- as an argument
    ⟨[⟨.ident, "f"⟩, ⟨.symbol, "("⟩], [⟨.symbol, ")"⟩], ["**", "*", ")"]⟩,
    ⟨[⟨.ident, "f"⟩, ⟨.symbol, "("⟩, ⟨.ident, "x"⟩], [⟨.symbol, ")"⟩], ["=", ","]⟩,
    -- in a list
    ⟨[⟨.symbol, "["⟩], [⟨.symbol, "]"⟩], ["]"]⟩,
    -- after a branch
    ⟨[⟨.keyword, "if"⟩, ⟨.symbol, "("⟩, ⟨.ident, "x"⟩, ⟨.symbol, ")"⟩, ⟨.symbol, "\x7b"⟩, ⟨.symbol, "\x7d"⟩], [],
      ["elif", "else"]⟩,
    -- in braces
    ⟨[⟨.symbol, "\x7b"⟩], [⟨.symbol, ":"⟩, ⟨.ident, "y"⟩, ⟨.symbol, "\x7d"⟩], ["\x7b", "\x7d"]⟩,
    ⟨[⟨.symbol, "\x7b"⟩, ⟨.ident, "x"⟩], [⟨.symbol, "\x7d"⟩], [":", "|"]⟩,
    -- as the result of a function
    ⟨[⟨.keyword, "return"⟩], [], [";"]⟩]

theorem exists_place : ∀ text ∈ steering ++ tested, ∃ p ∈ stringPlaces, text ∈ p.texts := by decide

theorem StringPlace.spoils {p : StringPlace} (hp : p ∈ stringPlaces) (h : text ∈ p.texts) :
    Spoils text p.pre p.post := by
  simp only [stringPlaces, List.mem_cons, List.not_mem_nil, or_false] at hp
  rcases hp with rfl | rfl | rfl | rfl | rfl | rfl | rfl | rfl | rfl | rfl
  all_goals simp only [statementWords, List.mem_cons, List.not_mem_nil, or_false] at h
  · rcases h with rfl | rfl | rfl | rfl | rfl | rfl | rfl | rfl | rfl | rfl | rfl | rfl | rfl | rfl
    all_goals exact spoils_of_error rfl rfl
  · rcases h with rfl | rfl | rfl | rfl | rfl | rfl | rfl
    all_goals exact spoils_of_error rfl rfl
  · subst h
    exact spoils_of_error rfl rfl
  · rcases h with rfl | rfl | rfl
    all_goals exact spoils_of_error rfl rfl
  · rcases h with rfl | rfl
    all_goals exact spoils_of_error rfl rfl
  · subst h
    exact spoils_of_error rfl rfl
  · rcases h with rfl | rfl
    all_goals exact spoils_of_error rfl rfl
  · rcases h with rfl | rfl
    all_goals exact spoils_of_error rfl rfl
  · rcases h with rfl | rfl
    all_goals exact spoils_of_error rfl rfl
  · -- the statement ends at the string, which becomes a statement of its own
    subst h
    refine ⟨[.ret (some (.str "a"))], rfl, fun body' hb => ?_⟩
    have hs : parse [⟨.keyword, "return"⟩, ⟨.string, ";"⟩] = .ok [.ret none, .str ";"] := rfl
    cases hs.symm.trans hb
    decide

/-- every string of a program gives a template of the program, for all texts that steer nothing -/
theorem exists_template {old : String} {body : List Node} (hold : old ∉ steering)
    (h : parse (pre ++ ⟨.string, old⟩ :: post) = .ok body) :
    ∃ mark template, mark ∉ (pre ++ post).map Token.text ∧ Filled mark old template body ∧
      ∀ new, new ∉ steering →
        (∃ body', parse (pre ++ ⟨.string, new⟩ :: post) = .ok body' ∧ Filled mark new template body') ∨
        new ∈ tested ∧ ∃ what t, Blamed new t ∧
          parse (pre ++ ⟨.string, new⟩ :: post) = .error (.expected what t) := by
  obtain ⟨mark, hm⟩ := exists_text_notMem (steering ++ tested ++ (pre ++ post).map Token.text)
  obtain ⟨hm, hf⟩ := not_or.mp (mt List.mem_append.mpr hm)
  obtain ⟨template, ht, hfill⟩ := template_of_parse hm hold hf h
  have hms : mark ∉ steering := fun h => hm (List.mem_append_left _ h)
  exact ⟨mark, template, hf, hfill, fun new hnew => parse_of_template hms hnew hf ht⟩

theorem replaceable_of_notMem (hw : text ∉ steering ++ tested) : Replaceable text := by
  intro pre post old body hold h
  obtain ⟨mark, template, hf, hfill, hnew⟩ := exists_template hold h
  obtain ⟨hws, hwt⟩ := not_or.mp (mt List.mem_append.mpr hw)
  obtain ⟨body', hb, hfill'⟩ := (hnew text hws).resolve_right fun h => hwt h.1
  exact ⟨body', mark, template, hb, hf, hfill, hfill'⟩

/-- **The texts of strings.** A string of a program may get every other text that steers nothing: the
program is read as before, with the other text in the place of that string, or the text is tested there and
the error shows it. The texts that may be put into every string of every program are those that are neither
steering nor tested. -/
theorem string_texts {pre post : List Token} {old : String} {body : List Node} (hold : old ∉ steering)
    (h : parse (pre ++ ⟨.string, old⟩ :: post) = .ok body) :
    (∃ mark template, mark ∉ (pre ++ post).map Token.text ∧ Filled mark old template body ∧
      ∀ new, new ∉ steering →
        (∃ body', parse (pre ++ ⟨.string, new⟩ :: post) = .ok body' ∧ Filled mark new template body') ∨
        new ∈ tested ∧ ∃ what t, Blamed new t ∧
          parse (pre ++ ⟨.string, new⟩ :: post) = .error (.expected what t)) ∧
    ∀ text, Replaceable text ↔ text ∉ steering ++ tested := by
  constructor
  · exact exists_template hold h
  · intro text
    constructor
    · intro hr hw
      obtain ⟨p, hp, hw⟩ := exists_place text hw
      exact (StringPlace.spoils hp hw).not_replaceable hr
    · exact replaceable_of_notMem

/-- the result of a function: one string for another, and the string that ends the statement -/
theorem string_texts_return :
    (∃ mark template body, parse [⟨.keyword, "return"⟩, ⟨.string, "b"⟩] = .ok body ∧
      Filled mark "a" template [.ret (some (.str "a"))] ∧ Filled mark "b" template body) ∧
    parse [⟨.keyword, "return"⟩, ⟨.string, ";"⟩] = .ok [.ret none, .str ";"] ∧ ¬ Replaceable ";" := by
  have h : parse ([⟨.keyword, "return"⟩] ++ ⟨.string, "a"⟩ :: []) = .ok [.ret (some (.str "a"))] := rfl
  obtain ⟨⟨mark, template, -, hold, hnew⟩, hr⟩ := string_texts (by decide) h
  obtain ⟨body, hb, hfill⟩ := (hnew "b" (by decide)).resolve_right fun h => absurd h.1 (by decide)
  exact ⟨⟨mark, template, body, hb, hold, hfill⟩, rfl, fun h => (hr ";").mp h (by decide)⟩

end BraceScript
