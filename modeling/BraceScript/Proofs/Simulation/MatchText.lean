import BraceScript.Proofs.Exec.Depth
import BraceScript.Proofs.Simulation.Match

/-!
# What can be seen of a value

In states that stand for each other, values that do are equal, ordered, true and shown alike.

* `Match.equal`, `Match.less`     comparisons
* `Match.shown`, `Match.plain`    texts of values
* `Match.nodeText`                texts of trees
* `Bond.Fail`, `Bond.Ends`        faults and signals that stand for each other, with the same texts
-/

namespace BraceScript

section
variable {α β : Type} {R : α → β → Prop} {xs : List α} {ys : List β}

theorem all_congr {p : α → Bool} {q : β → Bool} (hp : ∀ {x y}, R x y → p x = q y) (h : List.Forall₂ R xs ys) :
    xs.all p = ys.all q := by
  induction h with
  | nil => rfl
  | cons hx _ ih => rw [List.all_cons, List.all_cons, hp hx, ih]

theorem any_congr {p : α → Bool} {q : β → Bool} (hp : ∀ {x y}, R x y → p x = q y) (h : List.Forall₂ R xs ys) :
    xs.any p = ys.any q := by
  induction h with
  | nil => rfl
  | cons hx _ ih => rw [List.any_cons, List.any_cons, hp hx, ih]

theorem isEmpty_congr (h : List.Forall₂ R xs ys) : xs.isEmpty = ys.isEmpty := by cases h <;> rfl

theorem findSome?_congr {γ : Type} {f : α → Option γ} {g : β → Option γ} (hf : ∀ {x y}, R x y → f x = g y)
    (h : List.Forall₂ R xs ys) : xs.findSome? f = ys.findSome? g := by
  induction h with
  | nil => rfl
  | cons hx _ ih => rw [List.findSome?_cons, List.findSome?_cons, hf hx, ih]

theorem map_congr_rel {γ : Type} {f : α → γ} {g : β → γ} (hf : ∀ {x y}, R x y → f x = g y)
    (h : List.Forall₂ R xs ys) : xs.map f = ys.map g := by
  induction h with
  | nil => rfl
  | cons hx _ ih => rw [List.map_cons, List.map_cons, hf hx, ih]

theorem mapM_congr_rel {γ ε : Type} {f : α → Except ε γ} {g : β → Except ε γ}
    (hf : ∀ {x y}, R x y → f x = g y) (h : List.Forall₂ R xs ys) : xs.mapM f = ys.mapM g := by
  induction h with
  | nil => rfl
  | cons hx _ ih => rw [List.mapM_cons, List.mapM_cons, hf hx, ih]

end

namespace Bond

variable {B : Bond} {w w' : World} {a a' b b' v v' : Value}

namespace Match

/-! ## equality -/

theorem pairwise {eq eq' : Value → Value → Bool}
    (he : ∀ {a a' b b'}, B.Val a a' → B.Val b b' → eq a b = eq' a' b') {as as' bs bs' : List Value}
    (ha : B.Vals as as') (hb : B.Vals bs bs') : World.pairwise eq as bs = World.pairwise eq' as' bs' := by
  induction ha generalizing bs bs' with
  | nil => cases hb <;> rfl
  | cons hx _ ih =>
    cases hb with
    | nil => rfl
    | cons hy hys => simp only [World.pairwise, hx.eq_iff hy, he hx hy, ih hys]

theorem holdsEntry {eq eq' : Value → Value → Bool}
    (he : ∀ {a a' b b'}, B.Val a a' → B.Val b b' → eq a b = eq' a' b') {d d' : Dict} (hd : B.Dicts d d')
    {p p' : Value × Value} (hp : B.Entry p p') :
    World.holdsEntry eq d p = World.holdsEntry eq' d' p' := by
  unfold World.holdsEntry
  have hf := hd.find? hp.1
  revert hf
  generalize d.find? p.1 = o
  generalize d'.find? p'.1 = o'
  rintro (hf | _)
  · simp only [hp.2.eq_iff hf, he hp.2 hf]
  · rfl

variable (h : B.Match w w')
include h

theorem equalStep {eq eq' : Value → Value → Bool}
    (he : ∀ {a a' b b'}, B.Val a a' → B.Val b b' → eq a b = eq' a' b') (ha : B.Val a a') (hb : B.Val b b') :
    w.equalStep eq a b = w'.equalStep eq' a' b' := by
  have hsame := ha.eq_iff hb
  cases ha with
  | list hi =>
    cases hb with
    | list hj => exact pairwise he (h.list hi) (h.list hj)
    | _ => rfl
  | tuple hi =>
    cases hb with
    | tuple hj => exact pairwise he (h.tuple hi) (h.tuple hj)
    | _ => rfl
  | dict hi =>
    cases hb with
    | dict hj =>
      have hd := h.dict hi
      have he' := h.dict hj
      have hall := all_congr (p := World.holdsEntry eq (w.dict _)) (fun hp => holdsEntry he he' hp) hd
      show (decide ((w.dict _).size = (w.dict _).size) && _) = (decide ((w'.dict _).size = (w'.dict _).size) && _)
      rw [hd.size_eq, he'.size_eq, hall]
    | _ => rfl
  | nan hi =>
    cases hb <;> rfl
  | function hi =>
    cases hb with
    | function hj => simpa [World.equalStep, Value.numeric?] using hsame
    | _ => rfl
  | callable hi =>
    cases hb with
    | callable hj => simpa [World.equalStep, Value.numeric?] using hsame
    | _ => rfl
  | _ => cases hb <;> rfl

theorem equal (ha : B.Val a a') (hb : B.Val b b') : w.equal a b = w'.equal a' b' := by
  have hn (n : Nat) : ∀ {a a' b b'}, B.Val a a' → B.Val b b' → w.equalWith n a b = w'.equalWith n a' b' := by
    induction n with
    | zero => exact fun _ _ => rfl
    | succ n ih => exact fun ha hb => h.equalStep ih ha hb
  have h1 := hn (w.depth + w'.depth) ha hb
  rwa [World.equalWith_deep (Nat.le_add_right _ _), World.equalWith_deep (Nat.le_add_left _ _)] at h1

theorem matching (ha : B.Val a a') (hb : B.Val b b') :
    w.matching a b = w'.matching a' b' := by
  simp only [World.matching, ha.eq_iff hb, h.equal ha hb]

/-! ## order, truth and keys -/

theorem lessItems {lt lt' : Value → Value → Except Fault Bool}
    (hl : ∀ {a a' b b'}, B.Val a a' → B.Val b b' → lt a b = lt' a' b') {as as' bs bs' : List Value}
    (ha : B.Vals as as') (hb : B.Vals bs bs') :
    World.lessItems w.equal lt as bs = World.lessItems w'.equal lt' as' bs' := by
  induction ha generalizing bs bs' with
  | nil => cases hb <;> rfl
  | cons hx _ ih =>
    cases hb with
    | nil => rfl
    | cons hy hys => simp only [World.lessItems, hx.eq_iff hy, h.equal hx hy, hl hx hy, ih hys]

theorem lessStep {lt lt' : Value → Value → Except Fault Bool}
    (hl : ∀ {a a' b b'}, B.Val a a' → B.Val b b' → lt a b = lt' a' b') (ha : B.Val a a') (hb : B.Val b b') :
    w.lessStep lt a b = w'.lessStep lt' a' b' := by
  cases ha with
  | list hi =>
    cases hb with
    | list hj => exact h.lessItems hl (h.list hi) (h.list hj)
    | _ => rfl
  | tuple hi =>
    cases hb with
    | tuple hj => exact h.lessItems hl (h.tuple hi) (h.tuple hj)
    | _ => rfl
  | _ => cases hb <;> rfl

theorem less (ha : B.Val a a') (hb : B.Val b b') : w.less a b = w'.less a' b' := by
  have hn (n : Nat) : ∀ {a a' b b'}, B.Val a a' → B.Val b b' → w.lessWith n a b = w'.lessWith n a' b' := by
    induction n with
    | zero => exact fun _ _ => rfl
    | succ n ih => exact fun ha hb => h.lessStep ih ha hb
  have h1 := hn (w.depth + w'.depth) ha hb
  rwa [World.lessWith_deep (Nat.le_add_right _ _), World.lessWith_deep (Nat.le_add_left _ _)] at h1

theorem truth (hv : B.Val v v') : w.truth v = w'.truth v' := by
  cases hv with
  | list hi =>
    have he := isEmpty_congr (h.list hi)
    rw [Array.isEmpty_toList, Array.isEmpty_toList] at he
    exact congrArg not he
  | dict hi => exact congrArg not (isEmpty_congr (h.dict hi))
  | tuple hi => exact congrArg not (isEmpty_congr (h.tuple hi))
  | _ => rfl

theorem unhashable? (hv : B.Val v v') : w.unhashable? v = w'.unhashable? v' := by
  cases hv with
  | tuple hi => exact findSome?_congr (fun hx => by cases hx <;> rfl) (h.tuple hi)
  | _ => rfl

/-! ## texts -/

end Match

/-- the containers that are being shown stand for each other -/
structure Inside (B : Bond) (s s' : Shown) : Prop where
  lists : List.Forall₂ B.lists.Pairs s.lists s'.lists
  dicts : List.Forall₂ B.dicts.Pairs s.dicts s'.dicts
  tuples : List.Forall₂ B.tuples.Pairs s.tuples s'.tuples

namespace Inside

variable {s s' : Shown} {i j : Nat}

theorem list (h : B.Inside s s') (hp : B.lists.Pairs i j) :
    B.Inside { s with lists := i :: s.lists } { s' with lists := j :: s'.lists } :=
  ⟨.cons hp h.lists, h.dicts, h.tuples⟩

theorem dict (h : B.Inside s s') (hp : B.dicts.Pairs i j) :
    B.Inside { s with dicts := i :: s.dicts } { s' with dicts := j :: s'.dicts } :=
  ⟨h.lists, .cons hp h.dicts, h.tuples⟩

theorem tuple (h : B.Inside s s') (hp : B.tuples.Pairs i j) :
    B.Inside { s with tuples := i :: s.tuples } { s' with tuples := j :: s'.tuples } :=
  ⟨h.lists, h.dicts, .cons hp h.tuples⟩

theorem none : B.Inside ⟨[], [], []⟩ ⟨[], [], []⟩ := ⟨.nil, .nil, .nil⟩

end Inside

theorem contains_rel {p : Pairing} {is js : List Nat} (h : List.Forall₂ p.Pairs is js) {i j : Nat}
    (hp : p.Pairs i j) : is.contains i = js.contains j := by
  induction h with
  | nil => rfl
  | cons hx _ ih =>
    rw [List.contains_cons, List.contains_cons, ih]
    congr 1
    exact Bool.eq_iff_iff.mpr (by simpa using hp.eq_iff hx)

theorem Target.text {c c' : Callable} (h : B.Target c c') : World.callableText c = World.callableText c' := by
  cases h with
  | constructor name qualified included _ => cases included <;> rfl
  | _ => rfl

namespace Match

variable (h : B.Match w w')
include h

theorem shownWith (n : Nat) {s s' : Shown} (hs : B.Inside s s') (hv : B.Val v v') :
    w.shownWith n s v = w'.shownWith n s' v' := by
  induction n generalizing s s' v v' with
  | zero => rfl
  | succ n ih =>
    cases hv with
    | list hi =>
      rw [World.shownWith, World.shownWith, contains_rel hs.lists hi]
      split
      · rfl
      · exact congrArg (· >>= _) (mapM_congr_rel (ih (hs.list hi)) (h.list hi))
    | dict hi =>
      rw [World.shownWith, World.shownWith, contains_rel hs.dicts hi]
      split
      · rfl
      · refine congrArg (· >>= _) (mapM_congr_rel (fun hp => ?_) (h.dict hi))
        dsimp only
        rw [ih (hs.dict hi) hp.1, ih (hs.dict hi) hp.2]
    | tuple hi =>
      rw [World.shownWith, World.shownWith, contains_rel hs.tuples hi]
      split
      · rfl
      · exact congrArg (· >>= _) (mapM_congr_rel (ih (hs.tuple hi)) (h.tuple hi))
    | function hi => simp only [World.shownWith, h.moduleName]
    | callable hi => simp only [World.shownWith, (h.callable hi).text]
    | builtin b =>
      rw [World.shownWith, World.shownWith]
      unfold World.builtinText
      rw [h.moduleName]
    | file cell => simp only [World.shownWith, h.handle cell]
    | _ => rfl

theorem shown (hv : B.Val v v') : w.shown v = w'.shown v' := by
  have h1 := h.shownWith (w.depth + w'.depth) .none hv
  rwa [World.shownWith_deep (Nat.le_add_right _ _), World.shownWith_deep (Nat.le_add_left _ _)] at h1

theorem plain (hv : B.Val v v') : w.plain v = w'.plain v' := by
  have hs := h.shown hv
  cases hv with
  | str s => rfl
  | _ => exact hs

theorem showable (hv : B.Val v v') : w.showable v = w'.showable v' :=
  (w.textIf_shown v).unique (h.shown hv ▸ w'.textIf_shown v')

theorem className (hv : B.Val v v') : w.className v = w'.className v' := by
  cases hv with
  | function hi =>
    unfold World.className
    rw [h.moduleName]
  | _ => rfl

/-! ## texts of trees -/

theorem nodeText {t t' : Node} (ht : B.Tree t t') : w.nodeText t = w'.nodeText t' := by
  cases ht with
  | same hc => exact nodeText_closed hc w w'
  | quoted hv =>
    unfold World.nodeText
    simp only [Node.form, Form.text, h.shown hv]

end Match

theorem formTexts_forms (g : Value → String) (ns : List Node) :
    formTexts g (forms ns) = ns.map fun n => n.form.text g := by
  induction ns with
  | nil => rfl
  | cons n ns ih => rw [forms, formTexts, ih, List.map_cons]

theorem entryTexts_keywordForms (g : Value → String) (ks : List (String × Node)) :
    entryTexts g (keywordForms ks) = ks.map fun p => Text.quoted p.1 ++ ": " ++ p.2.form.text g := by
  induction ks with
  | nil => rfl
  | cons p ks ih => rw [keywordForms, entryTexts, ih, List.map_cons]

namespace Match

theorem nodeText_call (h : B.Match w w') {c c' : Node} {args args' : List Node}
    {ks ks' : List (String × Node)} (hc : B.Tree c c') (ha : B.Trees args args') (hk : Tables B.Tree ks ks') :
    w.nodeText (.call c args ks) = w'.nodeText (.call c' args' ks') := by
  unfold World.nodeText
  simp only [Node.form, Form.kind, Form.text, formTexts, formTexts_forms, entryTexts_keywordForms]
  have h1 := h.nodeText hc
  have h2 : args.map w.nodeText = args'.map w'.nodeText := map_congr_rel (fun ht => h.nodeText ht) ha
  have h3 : (ks.map fun p => Text.quoted p.1 ++ ": " ++ w.nodeText p.2) =
      ks'.map fun p => Text.quoted p.1 ++ ": " ++ w'.nodeText p.2 :=
    map_congr_rel (fun hp => by rw [hp.1, h.nodeText hp.2]) hk
  unfold World.nodeText at h1 h2 h3
  rw [h1, h2, h3]

end Match

/-! ## faults -/

end Bond

def Fault.isPlain : Fault → Bool
  | .thrown _ => false
  | .missingKey _ => false
  | _ => true

namespace Bond

variable {B : Bond} {w w' : World}

variable (B) in
/-- faults that stand for each other -/
inductive Fail : Fault → Fault → Prop
  | plain {f : Fault} (h : f.isPlain = true) : Fail f f
  | thrown {v v' : Value} (h : B.Val v v') : Fail (.thrown v) (.thrown v')
  | missingKey {v v' : Value} (h : B.Val v v') : Fail (.missingKey v) (.missingKey v')

variable (B) in
/-- signals that stand for each other -/
inductive Ends : Signal → Signal → Prop
  | fault {f f' : Fault} (h : B.Fail f f') : Ends (.fault f) (.fault f')
  | breakLoop : Ends .breakLoop .breakLoop
  | continueLoop : Ends .continueLoop .continueLoop
  | exhausted : Ends .exhausted .exhausted

theorem Fail.family {f f' : Fault} (h : B.Fail f f') : f.family = f'.family := by cases h <;> rfl

namespace Match

theorem message (h : B.Match w w') {f f' : Fault} (hf : B.Fail f f') : w.message f = w'.message f' := by
  cases hf with
  | plain hp =>
    unfold World.message
    split
    · cases hp
    · cases hp
    · rfl
  | thrown hv => exact h.plain hv
  | missingKey hv => exact h.shown hv

theorem signalText (h : B.Match w w') {s s' : Signal} (hs : B.Ends s s') :
    w.signalText s = w'.signalText s' := by
  cases hs with
  | fault hf => exact h.message hf
  | _ => rfl

end Match

end Bond

end BraceScript
