import BraceScript.Console
import BraceScript.Proofs.Exec.Occasion

/-!
# Turns at the console

A session at the console goes from line to line. Each line resets the session, is kept as part of an unfinished
text, or completes a text, which is then run. What ends a program is written, and the session goes on, unless that
has no text. A session is not followed beyond a program that gives no answer.

* `Dialog`          the unfinished text of a session, its state, and what ended it
* `Turn`, `Turns`   what one line does, and what a list of lines does
* `Unread`          no program of the session reads from the input
* `Turns.account`   the lines of the texts that are run, and those still kept, are the lines that were read
* `console_turns`   every session is a list of turns, and ends with the input, at a line that quits, or with a program
-/

namespace BraceScript

/-! ## turns -/

/-- where a session stands: the lines of the unfinished text, the state, and what ended the session -/
structure Dialog where
  buffer : List String
  state : World
  ended : Option Signal

/-- what a line is used for -/
inductive Use
  | reset
  | keep
  | run (chunk : String)
deriving DecidableEq

/-- the text that a line completes -/
def Use.chunk? : Use → Option String
  | run chunk => some chunk
  | _ => none

/-- is the line one that speaks to the console itself, if no text is unfinished? -/
def IsCommand (line : String) : Prop := Text.strip line ∈ quitWords ∨ Text.strip line = ":reset"

/-- the state after a line has been asked for and read -/
def World.asked (w : World) (buffer : List String) : World := { w.say (prompt buffer) with input := w.input.tail }

/-- what is written after a program: its result, if it has one, or what ended it -/
def World.answer (w : World) : Except Signal Value → String
  | .ok .null => ""
  | .ok v =>
    match w.plain v with
    | .ok s => s ++ "\n"
    | .error f => "Error: " ++ w.report (.fault f) ++ "\n"
  | .error signal => "Error: " ++ w.report signal ++ "\n"

/-- a line completes a text, which is then run -/
structure Completes (buffer : List String) (w : World) (line chunk : String) : Prop where
  read : w.input.head? = some line
  word : buffer = [] → ¬ IsCommand line
  text : chunk = "\n".intercalate (buffer ++ [line])
  whole : needsMore chunk = false

/-- what one line does, unless the session has ended -/
inductive Turn : Dialog → String → Use → Dialog → Prop
  /-- with no unfinished text, a word to the console starts over -/
  | reset {w : World} {line : String} (hline : w.input.head? = some line) (hword : Text.strip line = ":reset") :
      Turn ⟨[], w, none⟩ line .reset ⟨[], (w.asked []).reset.say "Interpreter reset.\n", none⟩
  /-- a text that needs more is kept -/
  | keep {w : World} {buffer : List String} {line : String} (hline : w.input.head? = some line)
      (hword : buffer = [] → ¬ IsCommand line) (hmore : needsMore ("\n".intercalate (buffer ++ [line])) = true) :
      Turn ⟨buffer, w, none⟩ line .keep ⟨buffer ++ [line], w.asked buffer, none⟩
  /-- any other text is run. What it did stays, however it ended, and the next text is a new one. -/
  | run {w u : World} {buffer : List String} {line chunk : String} {result : Except Signal Value}
      (hc : Completes buffer w line chunk) (hrun : (w.asked buffer).run chunk = (result, u))
      (htold : ∀ signal, result = .error signal → signal ≠ .exhausted ∧ u.untold signal = false) :
      Turn ⟨buffer, w, none⟩ line (.run chunk) ⟨[], u.say (u.answer result), none⟩
  /-- if what ended it has no text, nothing is written and the session ends -/
  | fail {w u : World} {buffer : List String} {line chunk : String} {signal : Signal}
      (hc : Completes buffer w line chunk) (hrun : (w.asked buffer).run chunk = (.error signal, u))
      (huntold : u.untold signal = true) :
      Turn ⟨buffer, w, none⟩ line (.run chunk) ⟨[], u, some (.fault .tooManyDigits)⟩
  /-- if it gives no answer, the session is not followed any more -/
  | stall {w u : World} {buffer : List String} {line chunk : String}
      (hc : Completes buffer w line chunk) (hrun : (w.asked buffer).run chunk = (.error .exhausted, u)) :
      Turn ⟨buffer, w, none⟩ line (.run chunk) ⟨[], u, some .exhausted⟩

/-- what a list of lines does, one after the other -/
inductive Turns : Dialog → List (String × Use) → Dialog → Prop
  | nil (d : Dialog) : Turns d [] d
  | cons {d d' e : Dialog} {line : String} {use : Use} {log : List (String × Use)} (h : Turn d line use d')
      (hs : Turns d' log e) : Turns d ((line, use) :: log) e

variable {d d' : Dialog} {line : String} {use : Use} {log : List (String × Use)} {buffer : List String} {w u : World}
  {signal : Signal}

/-- no program that is run in the session reads from the input -/
def Unread (d : Dialog) : Prop :=
  ∀ log d₁ line chunk d₂, Turns d log d₁ → Turn d₁ line (.run chunk) d₂ → d₂.state.input = d₁.state.input.tail

theorem Unread.next (h : Unread d) (ht : Turn d line use d') : Unread d' :=
  fun log d₁ line' chunk d₂ hs ht' => h ((line, use) :: log) d₁ line' chunk d₂ (.cons ht hs) ht'

theorem Turn.read (ht : Turn d line use d') : d.state.input.head? = some line := by
  cases ht with
  | reset hline => exact hline
  | keep hline => exact hline
  | run hc | fail hc | stall hc => exact hc.read

theorem Turn.rest (ht : Turn d line use d') (h : Unread d) : d'.state.input = d.state.input.tail := by
  cases use with
  | run chunk => exact h [] _ _ _ _ (.nil _) ht
  | reset =>
    cases ht
    rfl
  | keep =>
    cases ht
    rfl

/-- a turn takes the first line -/
theorem Turn.input (ht : Turn d line use d') (h : Unread d) :
    d.state.input = line :: d'.state.input := by
  obtain ⟨rest, hr⟩ := List.head?_eq_some_iff.mp ht.read
  rw [ht.rest h, hr]
  rfl

theorem Turns.input (hs : Turns d log d') (h : Unread d) :
    d.state.input = log.map Prod.fst ++ d'.state.input := by
  induction hs with
  | nil d => rfl
  | cons ht hs ih => rw [ht.input h, ih (h.next ht), List.map_cons, List.cons_append]

/-! ## the lines of a text -/

namespace Text

theorem splitFrom_last {x : List Char} (h : '\n' ∉ x) : splitFrom ['\n'] 0 x = [x] := by
  induction x with
  | nil => rfl
  | cons c x ih =>
    obtain ⟨hc, hx⟩ := not_or.mp (mt List.mem_cons.mpr h)
    have hp : List.isPrefixOf ['\n'] (c :: x) = false := by
      rw [List.isPrefixOf, beq_eq_false_iff_ne.mpr hc, Bool.false_and]
    rw [splitFrom, hp, ih hx]
    rfl

theorem splitFrom_line {x : List Char} (h : '\n' ∉ x) (r : List Char) :
    splitFrom ['\n'] 0 (x ++ '\n' :: r) = x :: splitFrom ['\n'] 0 r := by
  induction x with
  | nil => rfl
  | cons c x ih =>
    obtain ⟨hc, hx⟩ := not_or.mp (mt List.mem_cons.mpr h)
    have hp : List.isPrefixOf ['\n'] (c :: (x ++ '\n' :: r)) = false := by
      rw [List.isPrefixOf, beq_eq_false_iff_ne.mpr hc, Bool.false_and]
    rw [List.cons_append, splitFrom, hp, ih hx]
    rfl

/-- lines that are joined come apart again -/
theorem splitOn_intercalate {lines : List String} (h : ∀ line ∈ lines, '\n' ∉ line.toList) (hne : lines ≠ []) :
    splitOn ("\n".intercalate lines) "\n" = lines := by
  have hsplit : splitFrom ['\n'] 0 (['\n'].intercalate (lines.map String.toList)) = lines.map String.toList := by
    induction lines with
    | nil => exact absurd rfl hne
    | cons line lines ih =>
      obtain ⟨hl, hls⟩ := List.forall_mem_cons.mp h
      cases lines with
      | nil =>
        rw [List.map_cons, List.map_nil, List.intercalate_singleton]
        exact splitFrom_last hl
      | cons line' lines =>
        have hmore := ih hls (List.cons_ne_nil _ _)
        rw [List.map_cons] at hmore
        rw [List.map_cons, List.map_cons, List.intercalate_cons_cons, List.append_assoc, List.singleton_append,
          splitFrom_line hl, hmore]
  have hsep : "\n".toList = ['\n'] := rfl
  rw [splitOn, String.toList_intercalate, hsep, hsplit, List.map_map]
  exact (List.map_congr_left fun s _ => String.ofList_toList).trans (List.map_id lines)

end Text

/-! ## accounting -/

/-- the texts that were run -/
def chunks (log : List (String × Use)) : List String := log.filterMap fun entry => entry.2.chunk?

/-- the lines that were read, but for those that start over -/
def programLines (log : List (String × Use)) : List String :=
  (log.filter fun entry => entry.2 ≠ .reset).map Prod.fst

theorem chunks_cons (entry : String × Use) (log : List (String × Use)) :
    chunks (entry :: log) = chunks [entry] ++ chunks log := List.filterMap_append (l := [entry])

theorem programLines_cons (entry : String × Use) (log : List (String × Use)) :
    programLines (entry :: log) = programLines [entry] ++ programLines log := by
  unfold programLines
  rw [← List.map_append, ← List.filter_append, List.singleton_append]

/-- a line is part of the text that it completes, or of the one that is kept -/
theorem Turn.account (ht : Turn d line use d') (hline : '\n' ∉ line.toList)
    (hbuffer : ∀ l ∈ d.buffer, '\n' ∉ l.toList) :
    (chunks [(line, use)]).flatMap (Text.splitOn · "\n") ++ d'.buffer = d.buffer ++ programLines [(line, use)] ∧
      ∀ l ∈ d'.buffer, '\n' ∉ l.toList := by
  have hkept : ∀ l ∈ d.buffer ++ [line], '\n' ∉ l.toList :=
    List.forall_mem_append.mpr ⟨hbuffer, List.forall_mem_singleton.mpr hline⟩
  have hparts {chunk : String} (h : chunk = "\n".intercalate (d.buffer ++ [line])) :
      [chunk].flatMap (Text.splitOn · "\n") ++ [] = d.buffer ++ [line] := by
    rw [List.append_nil, List.flatMap_singleton, h]
    exact Text.splitOn_intercalate hkept (List.append_ne_nil_of_right_ne_nil _ (List.cons_ne_nil _ _))
  cases ht with
  | reset => exact ⟨rfl, hbuffer⟩
  | keep => exact ⟨rfl, hkept⟩
  | run hc | fail hc | stall hc => exact ⟨hparts hc.text, fun _ hl => nomatch hl⟩

/-- **Nothing is lost, repeated or moved**: the lines of the texts that were run, with those still kept at the end,
are the lines kept at the start with those that were read. -/
theorem Turns.account (hs : Turns d log d') (hlog : ∀ entry ∈ log, '\n' ∉ entry.1.toList)
    (hbuffer : ∀ line ∈ d.buffer, '\n' ∉ line.toList) :
    (chunks log).flatMap (Text.splitOn · "\n") ++ d'.buffer = d.buffer ++ programLines log := by
  induction hs with
  | nil d => exact (List.append_nil d.buffer).symm
  | cons ht hs ih =>
    obtain ⟨hline, hnext⟩ := List.forall_mem_cons.mp hlog
    obtain ⟨hstep, hkept⟩ := ht.account hline hbuffer
    rw [chunks_cons, programLines_cons, List.flatMap_append, List.append_assoc, ih hnext hkept, ← List.append_assoc,
      hstep, List.append_assoc]

/-! ## sessions -/

theorem complain_told (hs : signal ≠ .exhausted) (h : w.untold signal = false) :
    w.complain signal = (none, w.say ("Error: " ++ w.report signal ++ "\n")) := by
  have htext := w.textIf_signalText signal
  unfold World.complain World.report
  rw [if_neg hs]
  revert htext
  rw [h]
  generalize w.signalText signal = text
  rintro ⟨s⟩
  rfl

theorem complain_untold (h : w.untold signal = true) :
    w.complain signal = (some (.fault .tooManyDigits), w) := by
  have htext := w.textIf_signalText signal
  have hs : signal ≠ .exhausted := by
    rintro rfl
    cases h
  unfold World.complain
  rw [if_neg hs]
  revert htext
  rw [h]
  generalize w.signalText signal = text
  rintro ⟨⟩
  rfl

theorem runLine_told {source : String} {result : Except Signal Value} (h : w.run source = (result, u))
    (htold : ∀ signal, result = .error signal → signal ≠ .exhausted ∧ u.untold signal = false) :
    w.runLine source = (none, u.say (u.answer result)) := by
  have hsilent : u = u.say "" := by rw [World.say, String.append_empty]
  unfold World.runLine
  rw [h]
  cases result with
  | error signal =>
    obtain ⟨hs, ht⟩ := htold signal rfl
    exact complain_told hs ht
  | ok v =>
    have hfault : ∀ f, u.plain v = .error f → f = .tooManyDigits := fun f hf => (hf ▸ u.textIf_plain v).fault
    cases v with
    | null => exact congrArg _ hsilent
    | _ =>
      dsimp only [World.answer]
      revert hfault
      generalize u.plain _ = text
      intro hfault
      cases text with
      | ok text => rfl
      | error f =>
        cases hfault f rfl
        exact complain_told (fun he => by cases he) rfl

theorem runLine_untold {source : String} (h : w.run source = (.error signal, u)) (huntold : u.untold signal = true) :
    w.runLine source = (some (.fault .tooManyDigits), u) := by
  unfold World.runLine
  rw [h]
  exact complain_untold huntold

theorem runLine_exhausted {source : String} (h : w.run source = (.error .exhausted, u)) :
    w.runLine source = (some .exhausted, u) := by
  unfold World.runLine
  rw [h]
  rfl

/-- how a session goes on from where it stands, for a number of turns -/
def Dialog.proceed (d : Dialog) (n : Nat) : Option Signal × World :=
  World.goOn (·.consoleTurns n d.buffer) (d.ended, d.state)

theorem consoleTurns_line (hline : w.input.head? = some line) (fuel : Nat) (buffer : List String) :
    w.consoleTurns (fuel + 1) buffer =
      if (buffer.isEmpty && quitWords.contains (Text.strip line)) = true then (none, w.asked buffer)
      else if (buffer.isEmpty && Text.strip line = ":reset") = true then
        ((w.asked buffer).reset.say "Interpreter reset.\n").consoleTurns fuel []
      else if needsMore ("\n".intercalate (buffer ++ [line])) then
        (w.asked buffer).consoleTurns fuel (buffer ++ [line])
      else World.goOn (·.consoleTurns fuel []) ((w.asked buffer).runLine ("\n".intercalate (buffer ++ [line]))) := by
  obtain ⟨rest, hin⟩ := List.head?_eq_some_iff.mp hline
  have hasked : w.asked buffer = { w.say (prompt buffer) with input := rest } := by
    rw [World.asked, hin]
    rfl
  rw [World.consoleTurns, hasked]
  simp only [World.say, hin]

/-- a turn is what the console does with the first line -/
theorem Turn.proceed (ht : Turn d line use d') (n : Nat) :
    d.proceed (n + 1) = d'.proceed n := by
  have hcommand {buffer : List String} (h : buffer = [] → ¬ IsCommand line) :
      (buffer.isEmpty && quitWords.contains (Text.strip line)) = false ∧
        (buffer.isEmpty && Text.strip line = ":reset") = false := by
    cases buffer with
    | cons => exact ⟨rfl, rfl⟩
    | nil =>
      have hno := not_or.mp (h rfl)
      exact ⟨by simpa using hno.1, by simpa using hno.2⟩
  have hlast {w : World} {buffer : List String} {chunk : String} (h : Completes buffer w line chunk) :
      w.consoleTurns (n + 1) buffer = World.goOn (·.consoleTurns n []) ((w.asked buffer).runLine chunk) := by
    rw [consoleTurns_line h.read, (hcommand h.word).1, (hcommand h.word).2, ← h.text, h.whole]
    rfl
  cases ht with
  | @reset w _ hline hword =>
    have hquit : quitWords.contains (Text.strip line) = false := by
      rw [hword]
      decide
    show w.consoleTurns (n + 1) [] = _
    rw [consoleTurns_line hline, hquit, hword]
    rfl
  | @keep w buffer _ hline hword hmore =>
    show w.consoleTurns (n + 1) buffer = _
    rw [consoleTurns_line hline, (hcommand hword).1, (hcommand hword).2, hmore]
    rfl
  | run hc hrun htold => exact (hlast hc).trans (congrArg _ (runLine_told hrun htold))
  | fail hc hrun huntold => exact (hlast hc).trans (congrArg _ (runLine_untold hrun huntold))
  | stall hc hrun => exact (hlast hc).trans (congrArg _ (runLine_exhausted hrun))

theorem Turns.proceed (hs : Turns d log d') (n : Nat) :
    d.proceed (log.length + n) = d'.proceed n := by
  induction hs with
  | nil d => rw [List.length_nil, Nat.zero_add]
  | cons ht _ ih => rw [List.length_cons, Nat.add_right_comm, ht.proceed, ih]

/-- a line that does not quit makes a turn -/
theorem exists_turn (hline : w.input.head? = some line) (hquit : buffer = [] → Text.strip line ∉ quitWords) :
    ∃ use d, Turn ⟨buffer, w, none⟩ line use d := by
  by_cases hreset : buffer = [] ∧ Text.strip line = ":reset"
  · obtain ⟨rfl, hword⟩ := hreset
    exact ⟨_, _, .reset hline hword⟩
  have hword : buffer = [] → ¬ IsCommand line := fun hb =>
    not_or.mpr ⟨hquit hb, fun hr => hreset ⟨hb, hr⟩⟩
  cases hmore : needsMore ("\n".intercalate (buffer ++ [line])) with
  | true => exact ⟨_, _, .keep hline hword hmore⟩
  | false =>
    have hc : Completes buffer w line _ := ⟨hline, hword, rfl, hmore⟩
    obtain ⟨result, u, hrun⟩ : ∃ result u, (w.asked buffer).run ("\n".intercalate (buffer ++ [line])) = (result, u) :=
      ⟨_, _, rfl⟩
    cases result with
    | ok v => exact ⟨_, _, .run hc hrun fun signal he => by cases he⟩
    | error signal =>
      by_cases hs : signal = .exhausted
      · subst hs
        exact ⟨_, _, .stall hc hrun⟩
      · cases hu : u.untold signal with
        | true => exact ⟨_, _, .fail hc hrun hu⟩
        | false =>
          refine ⟨_, _, .run hc hrun fun signal' he => ?_⟩
          cases he
          exact ⟨hs, hu⟩

/-- how a session ends: the input is at its end, a line quits while no text is unfinished, or a program ends it -/
inductive Dialog.Leaves : Dialog → Option Signal × World → Prop
  | input {buffer : List String} {w : World} (h : w.input = []) :
      Dialog.Leaves ⟨buffer, w, none⟩ (none, w.say (prompt buffer ++ "\n"))
  | quit {w : World} {line : String} (hline : w.input.head? = some line) (hword : Text.strip line ∈ quitWords) :
      Dialog.Leaves ⟨[], w, none⟩ (none, w.asked [])
  | program {buffer : List String} {w : World} {s : Signal} : Dialog.Leaves ⟨buffer, w, some s⟩ (some s, w)

/-- the turns of a session, when the bound on them is above the number of lines -/
theorem proceed_turns {n : Nat} (hn : d.state.input.length < n) (h : Unread d) :
    ∃ log e, Turns d log e ∧ Dialog.Leaves e (d.proceed n) := by
  induction n generalizing d with
  | zero => exact absurd hn (Nat.not_lt_zero _)
  | succ n ih =>
    obtain ⟨buffer, w, ended⟩ := d
    cases ended with
    | some s => exact ⟨[], _, .nil _, .program⟩
    | none =>
      cases hin : w.input with
      | nil =>
        have hend : w.consoleTurns (n + 1) buffer = (none, w.say (prompt buffer ++ "\n")) := by
          rw [World.consoleTurns]
          simp only [World.say, hin, String.append_assoc]
        refine ⟨[], _, .nil _, ?_⟩
        show Dialog.Leaves _ (w.consoleTurns (n + 1) buffer)
        rw [hend]
        exact .input hin
      | cons line rest =>
        have hline : w.input.head? = some line := by
          rw [hin]
          rfl
        by_cases hquit : buffer = [] ∧ Text.strip line ∈ quitWords
        · obtain ⟨rfl, hword⟩ := hquit
          refine ⟨[], _, .nil _, ?_⟩
          show Dialog.Leaves _ (w.consoleTurns (n + 1) [])
          rw [consoleTurns_line hline, List.contains_iff_mem.mpr hword]
          exact .quit hline hword
        · obtain ⟨use, d', ht⟩ := exists_turn hline (not_and.mp hquit)
          have hleft : w.input = line :: d'.state.input := ht.input h
          obtain ⟨log, e, hs, hend⟩ := ih (by rw [hleft, List.length_cons] at hn; omega) (h.next ht)
          exact ⟨(line, use) :: log, e, .cons ht hs, ht.proceed n ▸ hend⟩

/-- what the console writes at first -/
def banner : String := "nebula version " ++ version ++ "\n"

theorem console_proceed (w : World) : w.console = Dialog.proceed ⟨[], w.say banner, none⟩ (w.input.length + 1) := rfl

/-- **A session is a list of turns.** If no line holds a line feed and no program reads from the input, the session
takes the lines from the front of the input, until the input is at its end, a line quits, or a program ends with
something that has no text or gives no answer. The texts that are run, cut into lines, with the lines that are still
kept, are the lines that were taken, but for those that start over. Lines that are kept when the session ends are not
run. -/
theorem console_turns (w : World) (hlines : ∀ line ∈ w.input, '\n' ∉ line.toList)
    (hunread : Unread ⟨[], w.say banner, none⟩) :
    ∃ (log : List (String × Use)) (d : Dialog),
      Turns ⟨[], w.say banner, none⟩ log d ∧ Dialog.Leaves d w.console ∧
      w.input = log.map Prod.fst ++ d.state.input ∧
      (chunks log).flatMap (Text.splitOn · "\n") ++ d.buffer = programLines log := by
  obtain ⟨log, d, hs, hend⟩ := proceed_turns (Nat.lt_succ_self w.input.length) hunread
  have hin : w.input = log.map Prod.fst ++ d.state.input := hs.input hunread
  refine ⟨log, d, hs, hend, hin, ?_⟩
  refine hs.account (fun entry he => hlines _ ?_) (fun _ hl => nomatch hl)
  rw [hin]
  exact List.mem_append_left _ (List.mem_map_of_mem he)

theorem unread_of_turn
    (hnext : ∀ line use d', Turn d line use d' → d'.state.input = d.state.input.tail ∧ Unread d') : Unread d := by
  intro log d₁ line chunk d₂ hs ht
  cases hs with
  | nil => exact (hnext _ _ _ ht).1
  | cons h hs => exact (hnext _ _ _ h).2 _ _ _ _ _ hs ht

theorem unread_of_ended : Unread ⟨buffer, w, some signal⟩ :=
  unread_of_turn fun _ _ _ ht => nomatch ht

theorem throwPower_read : parseSource "throw pow(10, 4300)" =
    .ok [.throw (.call (.var "pow") [.num (.int 10), .num (.int 4300)] [])] := by
  have ht : tokenize "throw pow(10, 4300)" = [⟨.keyword, "throw"⟩, ⟨.ident, "pow"⟩, ⟨.symbol, "("⟩, ⟨.number, "10"⟩,
      ⟨.symbol, ","⟩, ⟨.number, "4300"⟩, ⟨.symbol, ")"⟩] := by decide +kernel
  rw [parseSource, ht]
  rfl

/-- the state of a session that throws a number of too many digits, when this line is read -/
def World.throwing : World :=
  ((World.start [] ["throw pow(10, 4300)", "1"] default "main").say banner).asked []

theorem throwing_run : ∃ signal, World.throwing.run "throw pow(10, 4300)" = (.error signal, .throwing) ∧
    World.throwing.untold signal = true := by
  refine ⟨.fault (.thrown (.int (Int.pow 10 4300))), ?_, ?_⟩
  · have hfuel : ∃ n, runFuel = n + 4 := ⟨runFuel - 4, (Nat.sub_add_cancel (by decide)).symm⟩
    obtain ⟨n, hn⟩ := hfuel
    rw [World.run, ← runOn_machine, runOn_ok throwPower_read, hn]
    rfl
  · have hlong : ∀ n : Int, ¬ n.natAbs < Nat.pow 10 maxDigits →
        World.throwing.untold (.fault (.thrown (.int n))) = true := by
      intro n hn
      have hshown : World.throwing.showable (.int n) = decide (n.natAbs < Nat.pow 10 maxDigits) := rfl
      rw [World.untold, hshown, decide_eq_false hn, Bool.not_false]
    have habs : ∀ n : Nat, (Int.pow 10 n).natAbs = Nat.pow 10 n := fun n => Int.natAbs_pow 10 n
    refine hlong _ ?_
    rw [habs]
    decide +kernel

/-- a program that throws a number of too many digits ends the session: the line after it is not read -/
theorem console_turns_untold :
    (World.start [] ["throw pow(10, 4300)", "1"] default "main").console = (some (.fault .tooManyDigits), .throwing) ∧
      ∃ log d, Turns ⟨[], (World.start [] ["throw pow(10, 4300)", "1"] default "main").say banner, none⟩ log d ∧
        Dialog.Leaves d (some (.fault .tooManyDigits), .throwing) ∧
        ["throw pow(10, 4300)", "1"] = log.map Prod.fst ++ d.state.input ∧
        (chunks log).flatMap (Text.splitOn · "\n") ++ d.buffer = programLines log := by
  have hlines : ∀ line ∈ ["throw pow(10, 4300)", "1"], '\n' ∉ line.toList := by decide +kernel
  have hcommand : ¬ IsCommand "throw pow(10, 4300)" := by
    unfold IsCommand
    decide +kernel
  have htext : "\n".intercalate ([] ++ ["throw pow(10, 4300)"]) = "throw pow(10, 4300)" := by decide +kernel
  have hwhole : needsMore "throw pow(10, 4300)" = false := by decide +kernel
  obtain ⟨signal, hrun, huntold⟩ := throwing_run
  have hturn := Turn.fail (w := (World.start [] ["throw pow(10, 4300)", "1"] default "main").say banner)
    ⟨rfl, fun _ => hcommand, htext.symm, hwhole⟩ hrun huntold
  -- the session is kept closed, so that only its first line is looked at
  have hunread : ∀ w : World, w.asked [] = .throwing → w.input.head? = some "throw pow(10, 4300)" →
      Unread ⟨[], w, none⟩ := by
    intro w hw hin
    refine unread_of_turn fun line use d' ht => ?_
    cases ht with
    | reset hline hword =>
      obtain rfl := Option.some.inj (hin.symm.trans hline)
      exact absurd (.inr hword) hcommand
    | keep hline hword hmore =>
      obtain rfl := Option.some.inj (hin.symm.trans hline)
      rw [htext, hwhole] at hmore
      cases hmore
    | run hc hrun' htold =>
      obtain rfl := Option.some.inj (hin.symm.trans hc.read)
      rw [hc.text, htext, hw, hrun] at hrun'
      obtain ⟨rfl, rfl⟩ := Prod.mk.inj hrun'
      rw [(htold signal rfl).2] at huntold
      cases huntold
    | fail hc hrun' =>
      obtain rfl := Option.some.inj (hin.symm.trans hc.read)
      rw [hc.text, htext, hw, hrun] at hrun'
      obtain ⟨-, rfl⟩ := Prod.mk.inj hrun'
      exact ⟨congrArg World.input hw.symm, unread_of_ended⟩
    | stall hc hrun' =>
      obtain rfl := Option.some.inj (hin.symm.trans hc.read)
      rw [hc.text, htext, hw, hrun] at hrun'
      obtain ⟨he, -⟩ := Prod.mk.inj hrun'
      cases he
      cases huntold
  have hconsole : (World.start [] ["throw pow(10, 4300)", "1"] default "main").console =
      (some (.fault .tooManyDigits), .throwing) := (console_proceed _).trans (hturn.proceed 2)
  have h := console_turns (World.start [] ["throw pow(10, 4300)", "1"] default "main") hlines (hunread _ rfl rfl)
  rw [hconsole] at h
  exact ⟨hconsole, h⟩

end BraceScript
