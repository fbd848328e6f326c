import BraceScript.Proofs.Print.Formula
import BraceScript.Proofs.Token.Segments
import Mathlib.Data.List.TakeWhile

/-!
# A minus before a number with a point

The minus takes the whole part alone, and negates it at once. The negated whole part is written out and continued by
the point and the digits of the fraction. A whole part of zero is written without a minus, so that the sign is lost.

* `DigitText`             digits of any script, at least one
* `readDouble?_fraction`  the double that a whole part and a fraction are read as
* `tokenize_fraction`     the tokens of a number with a point
* `parse_minus_fraction`  what it is read as, with a minus and without
-/

namespace BraceScript

/-! ## reading a fraction -/

def Double.Signs (f : Bool → Double) : Prop := f true = (f false).neg ∧ f true ≠ f false

theorem signs_zero : Double.Signs Double.signedZero := ⟨rfl, nofun⟩

theorem signs_infinity : Double.Signs Double.infinity := ⟨rfl, nofun⟩

theorem signs_assemble (m : Nat) (e : Int) : Double.Signs fun s => Double.assemble s m e := by
  simp only [Double.assemble]
  generalize (if m = Nat.pow 2 53 then (Nat.pow 2 52, e + 1) else (m, e)) = p
  by_cases h : p.2 > 971
  · simp only [h, if_true]
    exact signs_infinity
  · simp only [h, if_false]
    exact ⟨rfl, nofun⟩

theorem signs_ofRatio (num den : Nat) : Double.Signs fun s => Double.ofRatio s num den := by
  by_cases h : num = 0
  · simp only [Double.ofRatio, h, if_true]
    exact signs_zero
  · simp only [Double.ofRatio, h, if_false]
    exact signs_assemble _ _

theorem signs_decimalValue (ds : List Nat) (e : Int) : Double.Signs fun s => decimalValue s ds e := by
  unfold decimalValue
  dsimp only
  split
  · exact signs_zero
  split
  · exact signs_infinity
  split
  · exact signs_zero
  split
  · exact signs_ofRatio _ _
  · exact signs_ofRatio _ _

section
variable {ds fs : List Char} (hd : ds ≠ []) (hds : ∀ c ∈ ds, Text.isDigit c = true) (hf : fs ≠ [])
  (hfs : ∀ c ∈ fs, Text.isDigit c = true)

include hds hfs in
/-- the characters of a number with a point -/
theorem fraction_chars {p : Char → Prop} (hp : p '.') (h : ∀ c, Text.isDigit c = true → p c) :
    ∀ c ∈ ds ++ '.' :: fs, p c := by
  intro c hc
  rw [List.mem_append, List.mem_cons] at hc
  rcases hc with hc | rfl | hc
  · exact h c (hds c hc)
  · exact hp
  · exact h c (hfs c hc)

include hd hds hf hfs

theorem readMagnitude_fraction (negative : Bool) : readMagnitude negative (ds ++ '.' :: fs) =
    some (decimalValue negative (ds.map digitValue ++ fs.map digitValue) (-fs.length)) := by
  have hexp : splitExponent (ds ++ '.' :: fs) = (ds ++ '.' :: fs, none) := by
    have hw : (ds ++ '.' :: fs).dropWhile (fun c => c != 'e' && c != 'E') = [] := by
      refine List.dropWhile_eq_nil_iff.mpr (fraction_chars hds hfs (by decide) fun c hc => ?_)
      simp [digit_ne hc (d := 'e') (by decide), digit_ne hc (d := 'E') (by decide)]
    simp only [splitExponent, hw]
  have hpoint : splitPoint (ds ++ '.' :: fs) = (ds, some fs) := by
    have hne : ∀ c ∈ ds, (c != '.') = true := fun c hc => bne_iff_ne.mpr (digit_ne (hds c hc) (by decide))
    simp only [splitPoint, List.dropWhile_append_of_pos hne, List.takeWhile_append_of_pos hne]
    simp
  simp [readMagnitude, hexp, hpoint, readExponent, optionalRun, hd, hf, digitRun_start hd hds, digitRun_start hf hfs]

/-- a whole part and a fraction are read as a double, with a minus before them or without -/
theorem readDouble?_fraction (negative : Bool) :
    readDouble? (String.ofList ((if negative then ['-'] else []) ++ (ds ++ '.' :: fs))) =
      some (decimalValue negative (ds.map digitValue ++ fs.map digitValue) (-fs.length)) := by
  have hm := readMagnitude_fraction hd hds hf hfs negative
  have hsolid : ∀ c ∈ (if negative then ['-'] else []) ++ (ds ++ '.' :: fs), Text.isBlank c = false := by
    intro c hc
    rcases List.mem_append.mp hc with hc | hc
    · cases negative with
      | false => cases hc
      | true =>
        obtain rfl := List.mem_singleton.mp hc
        decide
    · exact fraction_chars hds hfs (by decide) (fun _ => digit_not_blank) c hc
  have hsign : splitSign ((if negative then ['-'] else []) ++ (ds ++ '.' :: fs)) = (negative, ds ++ '.' :: fs) := by
    cases negative with
    | true => rfl
    | false =>
      obtain ⟨c, ds, rfl⟩ := List.exists_cons_of_ne_nil hd
      exact splitSign_digits (hds c List.mem_cons_self) _
  -- the names of the special doubles have no point
  have hword : ∀ w : String, '.' ∉ w.toList → String.ofList ((ds ++ '.' :: fs).map Char.toLower) ≠ w := by
    intro w hw e
    refine hw (e ▸ ?_)
    rw [String.toList_ofList]
    exact List.mem_map.mpr ⟨'.', by simp, by decide⟩
  unfold readDouble?
  rw [String.toList_ofList, trimBlanks_of_solid hsolid, hsign]
  simp only [hword "inf" (by decide), hword "infinity" (by decide), hword "nan" (by decide), decide_false, Bool.or_self,
    Bool.false_eq_true, if_false]
  exact hm

end

/-! ## digits and their tokens -/

/-- a text of decimal digits, at least one, of any script -/
structure DigitText where
  text : String
  canonical : Token.Canonical ⟨.number, text⟩

namespace DigitText

variable (a b : DigitText)

theorem ne_nil : a.text.toList ≠ [] := a.canonical.1

theorem digits : ∀ c ∈ a.text.toList, Text.isDigit c = true := List.all_eq_true.mp a.canonical.2

/-- the number that the digits write -/
def value : Nat := ofDigits (a.text.toList.map digitValue)

theorem readInt_text :
    readInt a.text = if maxDigits < a.text.length then .error (.tooLong a.text.length) else .ok (a.value : Int) := by
  have h := readInt_digits a.ne_nil a.digits
  rwa [String.ofList_toList, String.length_toList] at h

theorem notMem {c : Char} (hc : Text.isDigit c = false) : c ∉ a.text.toList :=
  fun h => digit_ne (a.digits c h) hc rfl

end DigitText

namespace Token

theorem scan_digits (a : DigitText) {r : List Char} (hr : ∀ c ∈ r.head?, Text.isDigit c = false)
    (before : Option Char) :
    scan 0 before (a.text.toList ++ r) = ⟨.number, a.text⟩ :: scan 0 a.text.toList.getLast? r := by
  have ht : textOf a.text.toList = a.text := textOf_free (a.notMem (by decide)) (a.notMem (by decide))
  rw [scan_lexeme a.ne_nil (lexeme?_number a.ne_nil a.digits hr before), Segment.token?, ht]
  rfl

theorem scan_fraction (a b : DigitText) (before : Option Char) :
    scan 0 before (a.text.toList ++ '.' :: b.text.toList) = [⟨.number, a.text⟩, mark ".", ⟨.number, b.text⟩] := by
  have hp : ∀ before', scan 0 before' ('.' :: b.text.toList) = mark "." :: scan 0 (some '.') b.text.toList :=
    fun before' => scan_lexeme (x := ['.']) (by decide) (lexeme?_symbol (by decide) rfl before')
  have hb := scan_digits b (r := []) (by simp) (some '.')
  rw [List.append_nil] at hb
  rw [scan_digits a (by simp; decide), hp, hb]
  rfl

/-- a minus before a character that does not make an update of it -/
theorem scan_minus {c : Char} (hc : c ≠ '=') (cs : List Char) :
    scan 0 none ('-' :: c :: cs) = ⟨.op, "-"⟩ :: scan 0 (some '-') (c :: cs) := by
  have h : lexeme? none (['-'] ++ c :: cs) = some (.token .op, 1) := by
    simp [lexeme?, literal?, augAssigns, comparisons, operators, List.isPrefixOf, Ne.symm hc, lexemeOf]
    decide
  exact scan_lexeme (by decide) h

end Token

/-- the tokens of a number with a point -/
theorem tokenize_fraction (a b : DigitText) :
    tokenize (a.text ++ "." ++ b.text) = [⟨.number, a.text⟩, mark ".", ⟨.number, b.text⟩] ∧
      tokenize ("-" ++ a.text ++ "." ++ b.text) =
        [⟨.op, "-"⟩, ⟨.number, a.text⟩, mark ".", ⟨.number, b.text⟩] := by
  have hs : '/' ∉ '-' :: (a.text.toList ++ '.' :: b.text.toList) := by
    simp [a.notMem (c := '/') (by decide), b.notMem (c := '/') (by decide)]
  have cut : ∀ x : List Char, '/' ∉ x → Token.cutComments x = x := by
    intro x hx
    have hc := Token.cutComments_noSlash hx []
    rwa [List.append_nil, show Token.cutComments [] = [] from rfl, List.append_nil] at hc
  have hm : Token.scan 0 none ('-' :: (a.text.toList ++ '.' :: b.text.toList)) =
      ⟨.op, "-"⟩ :: Token.scan 0 (some '-') (a.text.toList ++ '.' :: b.text.toList) := by
    obtain ⟨c, cs, h⟩ := List.exists_cons_of_ne_nil a.ne_nil
    rw [h]
    exact Token.scan_minus (digit_ne (a.digits c (h ▸ List.mem_cons_self)) (by decide)) _
  constructor
  · have ht : (a.text ++ "." ++ b.text).toList = a.text.toList ++ '.' :: b.text.toList := by simp
    rw [tokenize, ht, cut _ fun h => hs (List.mem_cons_of_mem _ h), Token.scan_fraction]
  · have ht : ("-" ++ a.text ++ "." ++ b.text).toList = '-' :: (a.text.toList ++ '.' :: b.text.toList) := by simp
    rw [tokenize, ht, cut _ hs, hm, Token.scan_fraction]

namespace Parse

variable (a b : DigitText) (g : Grammar)

theorem primary_digits (ts : List Token) : primary g (⟨.number, a.text⟩ :: ts) =
    if maxDigits < a.text.length then .error (.longInteger a.text.length) else .ok (.num (.int a.value), ts) := by
  simp only [primary, bind_run, peek_run, List.head?_cons, expectKind_run, integer, a.readInt_text]
  split <;> rfl

theorem primary_minus_error {g : Grammar} {ts : List Token} {e : ParseError} (h : g.primary ts = .error e) :
    primary g (⟨.op, "-"⟩ :: ts) = .error e := by
  simp [primary, operand, h]

theorem expression_error {g : Grammar} {ts : List Token} {e : ParseError} (h : primary g ts = .error e) :
    expression g 0 ts = .error e := bind_error h _

/-- an operand that is a whole number, continued by a point and digits -/
theorem expression_fraction {ts : List Token} {n : Int} {x : Double}
    (hp : primary g ts = .ok (.num (.int n), [mark ".", ⟨.number, b.text⟩]))
    (hx : readDouble? (numeralText (.int n) ++ "." ++ b.text) = some x) :
    expression g 0 ts = .ok (.num (.real x), []) := by
  have he : extend g 0 (.num (.int n)) (mark ".") [mark ".", ⟨.number, b.text⟩] =
      .ok (some (.num (.real x), true), []) := by
    simp [extend, afterPoint, withFraction, hx]
  exact expression_extend hp he ends_nil

end Parse

open Parse

/-- the double of a whole part and the digits of a fraction, with the given sign -/
def fractionValue (negative : Bool) (n : Nat) (b : DigitText) : Double :=
  decimalValue negative ((Nat.toDigits 10 n).map digitValue ++ b.text.toList.map digitValue) (-b.text.toList.length)

/-- a number is written out and continued; there is a minus before a number below zero only -/
theorem readDouble?_continued (n : Nat) (b : DigitText) :
    readDouble? (numeralText (.int n) ++ "." ++ b.text) = some (fractionValue false n b) ∧
      readDouble? (numeralText (.int (-n)) ++ "." ++ b.text) = some (fractionValue (n ≠ 0) n b) := by
  have h := readDouble?_fraction Nat.toDigits_ne_nil (isDigit_toDigits n) b.ne_nil b.digits
  have ht : ∀ k : Nat, numeralText (.int k) = String.ofList (Nat.toDigits 10 k) :=
    fun _ => Nat.toString_eq_ofList_toDigits
  have hp : readDouble? (numeralText (.int n) ++ "." ++ b.text) = some (fractionValue false n b) := by
    refine Eq.trans (congrArg readDouble? ?_) (h false)
    simp [ht, ← String.toList_inj]
  refine ⟨hp, ?_⟩
  cases n with
  | zero => exact hp
  | succ n =>
    have hm : numeralText (.int (-(n + 1 : Nat))) = "-" ++ numeralText (.int (n + 1 : Nat)) := rfl
    refine Eq.trans (congrArg readDouble? ?_) (h true)
    rw [hm, ht]
    simp [← String.toList_inj]

/-- **A minus before a number with a point negates it if and only if the whole part is not zero.** A whole part of more
digits than can be read is refused. -/
theorem parse_minus_fraction (a b : DigitText) :
    if maxDigits < a.text.length then
      parse (tokenize (a.text ++ "." ++ b.text)) = .error (.longInteger a.text.length) ∧
        parse (tokenize ("-" ++ a.text ++ "." ++ b.text)) = .error (.longInteger a.text.length)
    else ∃ x : Double, parse (tokenize (a.text ++ "." ++ b.text)) = .ok [.num (.real x)] ∧
      parse (tokenize ("-" ++ a.text ++ "." ++ b.text)) = .ok [.num (.real (if a.value = 0 then x else x.neg))] ∧
      x.neg ≠ x := by
  obtain ⟨ht, htm⟩ := tokenize_fraction a b
  rw [ht, htm]
  have hword : a.text ∉ statementWords := by
    have hall : ∀ w ∈ statementWords, w.toList.all Text.isDigit = false := by decide
    exact fun h => Bool.false_ne_true ((hall _ h).symm.trans a.canonical.2)
  have hp := fun g => primary_digits a g [mark ".", ⟨.number, b.text⟩]
  have hg : (grammar 5).primary [⟨.number, a.text⟩, mark ".", ⟨.number, b.text⟩] = _ := hp (grammar 4)
  split
  · rename_i hl
    simp only [hl, if_true] at hp hg
    exact ⟨parse_error hword (expression_error (hp _)),
      parse_error (by decide) (expression_error (primary_minus_error hg))⟩
  · rename_i hl
    simp only [hl, if_false] at hp hg
    obtain ⟨hx, hxm⟩ := readDouble?_continued a.value b
    obtain ⟨hneg, hne⟩ : Double.Signs fun s => fractionValue s a.value b := signs_decimalValue _ _
    have hm : primary (grammar 5) [⟨.op, "-"⟩, ⟨.number, a.text⟩, mark ".", ⟨.number, b.text⟩] =
        .ok (.num (.int (-a.value)), [mark ".", ⟨.number, b.text⟩]) := primary_minus hg
    have hr : parse [⟨.op, "-"⟩, ⟨.number, a.text⟩, mark ".", ⟨.number, b.text⟩] =
        .ok [.num (.real (fractionValue (a.value ≠ 0) a.value b))] :=
      parse_expression (by decide) (expression_fraction b (grammar 5) hm hxm)
    refine ⟨_, parse_expression hword (expression_fraction b _ (hp _) hx), ?_, hneg ▸ hne⟩
    rw [hr]
    by_cases hz : a.value = 0
    · simp [hz]
    · simp [hz, hneg]

/-- a half and a half with a minus are read as the same number -/
theorem parse_minus_half : ∃ x : Double, parse (tokenize "0.5") = .ok [.num (.real x)] ∧
    parse (tokenize "-0.5") = .ok [.num (.real x)] ∧ x.neg ≠ x := by
  have h := parse_minus_fraction ⟨"0", by decide⟩ ⟨"5", by decide⟩
  rw [if_neg (by decide)] at h
  exact h

end BraceScript
