import BraceScript.Parse.Statement
import Mathlib.Data.List.Forall2

/-!
# Trees that are alike

Two trees are alike when they have the same shape and differ at most in the texts of their strings. A
string is written in a program as a literal, as the name of an included file, or as a piece of an embedded
block.

* `Token.Alike`   two tokens that differ at most in the text of a string
* `Node.Alike`    two trees that do
* `Node.Alike.eq_of_eq`   trees that are alike with no text changed are equal
-/

namespace BraceScript

open List (Forall₂)
open Prod (RProd)

/-- two tokens that are equal, or strings with related texts -/
inductive Token.Alike (K : String → String → Prop) : Token → Token → Prop
  | same {t : Token} (h : t.kind ≠ .string) : Alike K t t
  | string {s s' : String} (h : K s s') : Alike K ⟨.string, s⟩ ⟨.string, s'⟩

section
variable {α β : Type} (R : α → β → Prop)

/-- parameters that differ in their defaults -/
inductive Param.Rel : Param α → Param β → Prop
  | receiver : Rel .receiver .receiver
  | plain {name : String} {d : Option α} {d' : Option β} (h : Option.Rel R d d') :
    Rel (.plain name d) (.plain name d')
  | rest {name : String} : Rel (.rest name) (.rest name)
  | keywords {name : String} : Rel (.keywords name) (.keywords name)

/-- functions that differ in their defaults and statements -/
inductive Method.Rel : Method α → Method β → Prop
  | mk {name : String} {ps : List (Param α)} {ps' : List (Param β)} {body : List α} {body' : List β}
    (hp : Forall₂ (Param.Rel R) ps ps') (hb : Forall₂ R body body') :
    Rel ⟨name, ps, body⟩ ⟨name, ps', body'⟩

/-- fields that differ in their defaults -/
inductive FieldRel : String × Option α → String × Option β → Prop
  | mk {name : String} {d : Option α} {d' : Option β} (h : Option.Rel R d d') :
    FieldRel (name, d) (name, d')

/-- classes that differ in their defaults and statements -/
inductive ClassDecl.Rel : ClassDecl α → ClassDecl β → Prop
  | mk {name : String} {parents : List String} {fields : List (String × Option α)}
    {fields' : List (String × Option β)} {methods : List (Method α)} {methods' : List (Method β)}
    {nested : List (ClassDecl α)} {nested' : List (ClassDecl β)}
    (hf : Forall₂ (FieldRel R) fields fields') (hm : Forall₂ (Method.Rel R) methods methods')
    (hn : Forall₂ Rel nested nested') :
    Rel (.mk name parents fields methods nested) (.mk name parents fields' methods' nested')

end

def embeddedCode (ts : List Token) : String :=
  String.ofList (trimBlanks (String.join (ts.map Parse.embeddedText)).toList)

/-- two trees of one shape whose strings have related texts -/
inductive Node.Alike (K : String → String → Prop) : Node → Node → Prop
  | num {n} : Alike K (.num n) (.num n)
  | str {s s'} (h : K s s') : Alike K (.str s) (.str s')
  | includeFile {s s'} (h : K s s') : Alike K (.includeFile s) (.includeFile s')
  | embedded {ts ts'} (h : Forall₂ (Token.Alike K) ts ts') :
    Alike K (.embedded (embeddedCode ts)) (.embedded (embeddedCode ts'))
  | var {x} : Alike K (.var x) (.var x)
  | list {es es'} (h : Forall₂ (Alike K) es es') : Alike K (.list es) (.list es')
  | listComp {b b' x i i' s s' cs cs'} (hb : Alike K b b') (hi : Alike K i i') (hs : Alike K s s')
    (hc : Forall₂ (Alike K) cs cs') : Alike K (.listComp b x i s cs) (.listComp b' x i' s' cs')
  | dict {es es'} (h : Forall₂ (RProd (Alike K) (Alike K)) es es') : Alike K (.dict es) (.dict es')
  | dictComp {k k' v v' x i i' c c'} (hk : Alike K k k') (hv : Alike K v v') (hi : Alike K i i')
    (hc : Option.Rel (Alike K) c c') : Alike K (.dictComp k v x i c) (.dictComp k' v' x i' c')
  | assign {x e e'} (h : Alike K e e') : Alike K (.assign x e) (.assign x e')
  | augAssign {x op e e'} (h : Alike K e e') : Alike K (.augAssign x op e) (.augAssign x op e')
  | augAttr {o o' a op e e'} (ho : Alike K o o') (h : Alike K e e') :
    Alike K (.augAttr o a op e) (.augAttr o' a op e')
  | augIndex {o o' i i' op e e'} (ho : Alike K o o') (hi : Alike K i i') (h : Alike K e e') :
    Alike K (.augIndex o i op e) (.augIndex o' i' op e')
  | setIndex {o o' i i' e e'} (ho : Alike K o o') (hi : Alike K i i') (h : Alike K e e') :
    Alike K (.setIndex o i e) (.setIndex o' i' e')
  | setAttr {o o' a e e'} (ho : Alike K o o') (h : Alike K e e') :
    Alike K (.setAttr o a e) (.setAttr o' a e')
  | binop {op l l' r r'} (hl : Alike K l l') (hr : Alike K r r') : Alike K (.binop op l r) (.binop op l' r')
  | compare {op l l' r r'} (hl : Alike K l l') (hr : Alike K r r') :
    Alike K (.compare op l r) (.compare op l' r')
  | inside {l l' r r'} (hl : Alike K l l') (hr : Alike K r r') : Alike K (.inside l r) (.inside l' r')
  | outside {l l' r r'} (hl : Alike K l l') (hr : Alike K r r') : Alike K (.outside l r) (.outside l' r')
  | danglingOutside {r r'} (hr : Alike K r r') : Alike K (.danglingOutside r) (.danglingOutside r')
  | and {l l' r r'} (hl : Alike K l l') (hr : Alike K r r') : Alike K (.and l r) (.and l' r')
  | or {l l' r r'} (hl : Alike K l l') (hr : Alike K r r') : Alike K (.or l r) (.or l' r')
  | not {e e'} (h : Alike K e e') : Alike K (.not e) (.not e')
  | neg {e e'} (h : Alike K e e') : Alike K (.neg e) (.neg e')
  | ternary {c c' y y' n n'} (hc : Alike K c c') (hy : Alike K y y') (hn : Alike K n n') :
    Alike K (.ternary c y n) (.ternary c' y' n')
  | call {f f' as as' ks ks'} (hf : Alike K f f') (ha : Forall₂ (Alike K) as as')
    (hk : Forall₂ (RProd Eq (Alike K)) ks ks') : Alike K (.call f as ks) (.call f' as' ks')
  | getAttr {o o' a} (h : Alike K o o') : Alike K (.getAttr o a) (.getAttr o' a)
  | getItem {o o' i i'} (ho : Alike K o o') (hi : Alike K i i') : Alike K (.getItem o i) (.getItem o' i')
  | index {o o' i i'} (ho : Alike K o o') (hi : Alike K i i') : Alike K (.index o i) (.index o' i')
  | slice {o o' a a' b b' c c'} (ho : Alike K o o') (ha : Option.Rel (Alike K) a a')
    (hb : Option.Rel (Alike K) b b') (hc : Option.Rel (Alike K) c c') :
    Alike K (.slice o a b c) (.slice o' a' b' c')
  | block {es es'} (h : Forall₂ (Alike K) es es') : Alike K (.block es) (.block es')
  | ifChain {bs bs'} (h : Forall₂ (RProd (Option.Rel (Alike K)) (Forall₂ (Alike K))) bs bs') :
    Alike K (.ifChain bs) (.ifChain bs')
  | forEach {x i i' s s' b b'} (hi : Alike K i i') (hs : Option.Rel (Alike K) s s')
    (hb : Forall₂ (Alike K) b b') : Alike K (.forEach x i s b) (.forEach x i' s' b')
  | whileLoop {c c' b b'} (hc : Alike K c c') (hb : Forall₂ (Alike K) b b') :
    Alike K (.whileLoop c b) (.whileLoop c' b')
  | breakLoop : Alike K .breakLoop .breakLoop
  | continueLoop : Alike K .continueLoop .continueLoop
  | ret {v v'} (h : Option.Rel (Alike K) v v') : Alike K (.ret v) (.ret v')
  | global {x} : Alike K (.global x) (.global x)
  | tryCatch {x b b' h h'} (hb : Forall₂ (Alike K) b b') (hh : Forall₂ (Alike K) h h') :
    Alike K (.tryCatch x b h) (.tryCatch x b' h')
  | throw {e e'} (h : Alike K e e') : Alike K (.throw e) (.throw e')
  | classDef {d d'} (h : ClassDecl.Rel (Alike K) d d') : Alike K (.classDef d) (.classDef d')
  | define {m m'} (h : Method.Rel (Alike K) m m') : Alike K (.define m) (.define m')
  | lambda {ps ps' b b'} (hp : Forall₂ (Param.Rel (Alike K)) ps ps') (hb : Forall₂ (Alike K) b b') :
    Alike K (.lambda ps b) (.lambda ps' b')
  | matchCase {e e' cs cs'} (h : Alike K e e')
    (hc : Forall₂ (RProd (Forall₂ (Alike K)) (Forall₂ (Alike K))) cs cs') :
    Alike K (.matchCase e cs) (.matchCase e' cs')
  | unpack {e e'} (h : Alike K e e') : Alike K (.unpack e) (.unpack e')
  | keywordUnpack {e e'} (h : Alike K e e') : Alike K (.keywordUnpack e) (.keywordUnpack e')

theorem Token.Alike.eq_of_eq {t t' : Token} (h : Token.Alike Eq t t') : t = t' := by
  cases h with
  | same _ => rfl
  | string h => rw [h]

theorem eq_of_alikes {ts ts' : List Token} (h : Forall₂ (Token.Alike Eq) ts ts') : ts = ts' := by
  have h' := h.imp fun _ _ => Token.Alike.eq_of_eq
  rwa [List.forall₂_eq_eq_eq] at h'

/-- **Trees that are alike with no text changed are equal.** -/
theorem Node.Alike.eq_of_eq {a b : Node} (h : Node.Alike Eq a b) : a = b := by
  -- the relation is nested in relations on lists, options and pairs, and the motive of each is equality
  apply @Node.Alike.rec Eq (fun a b _ => a = b) (fun a b _ => a = b) (fun a b _ => a = b)
    (fun a b _ => a = b) (fun a b _ => a = b) (fun a b _ => a = b) (fun a b _ => a = b)
    (fun a b _ => a = b) (fun a b _ => a = b) (fun a b _ => a = b) (fun a b _ => a = b)
    (fun a b _ => a = b) (fun a b _ => a = b) (fun a b _ => a = b) (fun a b _ => a = b)
    (fun a b _ => a = b) (fun a b _ => a = b) (fun a b _ => a = b) (fun a b _ => a = b)
  case embedded =>
    intro ts ts' h
    rw [eq_of_alikes h]
  case t => exact h
  all_goals
    intros
    subst_vars
    rfl

end BraceScript
