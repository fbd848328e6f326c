import BraceScript.Proofs.Console.Turns
import BraceScript.Proofs.Simulation.Rebase

/-!
# Starting over at the console

A session can start over. What follows does not depend on the lines before, unless they changed the list of
command line arguments: that list is kept, with all that was put into it.

* `Match.run`, `Match.consoleTurns`   programs and sessions from states that stand for each other
* `World.Ready`       what holds in all states of a session
* `Played`            lines that a session reads from its start
* `reset_isolates`    after a reset, a session goes on as one that starts with the arguments that are left
-/

namespace BraceScript

open Exec

namespace Bond

variable {B : Bond} {w w' : World}

/-! ## programs -/

variable (B) in
/-- results of programs that stand for each other -/
inductive Result : Except Signal Value → Except Signal Value → Prop
  | ok {v v' : Value} (h : B.Val v v') : Result (.ok v) (.ok v')
  | error {s s' : Signal} (h : B.Ends s s') : Result (.error s) (.error s')

theorem sim_runSource (hB : B.Plain) (fuel : Nat) (source : String) :
    B.Sim B.Val (runSource fuel source) (runSource fuel source) := by
  refine sim_bind (sim_parseProgram source) ?_
  rintro body _ ⟨rfl, hc⟩
  exact sim_get fun hw => sim_runBlock (machines_same hB.names hB.free fuel) hw.pairs_globals .null (.same hc)

/-- **A program ends alike from states that stand for each other.** -/
theorem Match.run (hw : B.Match w w') (hB : B.Plain) (source : String) :
    B.Result (w.run source).1 (w'.run source).1 ∧ B.Match (w.run source).2 (w'.run source).2 := by
  have hr := sim_runSource hB runFuel source _ _ (hw.setActive hB.active)
  unfold World.run World.perform EStateM.run
  revert hr
  generalize runSource runFuel source _ = r
  generalize runSource runFuel source _ = r'
  intro hr
  cases hr with
  | ok hv hu => exact ⟨.ok hv, hu⟩
  | error hs hu => exact ⟨.error hs, hu⟩
  | stop hs => exact absurd hs (hB.runs _)

theorem Match.say (hw : B.Match w w') (s : String) : B.Match (w.say s) (w'.say s) := hw.write s

theorem Match.asked (hw : B.Match w w') (buffer : List String) : B.Match (w.asked buffer) (w'.asked buffer) := by
  have hin : (w.asked buffer).input = (w'.asked buffer).input := congrArg List.tail hw.input
  exact { hw.say (prompt buffer) with input := hin }

theorem Ends.exhausted_iff {s s' : Signal} (h : B.Ends s s') : s = .exhausted ↔ s' = .exhausted := by
  cases h with
  | exhausted => exact Iff.rfl
  | _ =>
    constructor
    · intro he
      cases he
    · intro he
      cases he

theorem Match.complain (hw : B.Match w w') {s s' : Signal} (hs : B.Ends s s') :
    (w.complain s).1 = (w'.complain s').1 ∧ B.Match (w.complain s).2 (w'.complain s').2 := by
  unfold World.complain
  by_cases he : s = .exhausted
  · rw [if_pos he, if_pos (hs.exhausted_iff.mp he)]
    exact ⟨rfl, hw⟩
  · rw [if_neg he, if_neg (hs.exhausted_iff.not.mp he), hw.signalText hs]
    generalize w'.signalText s' = text
    cases text with
    | ok text => exact ⟨rfl, hw.say _⟩
    | error f => exact ⟨rfl, hw⟩

theorem Match.runLine (hw : B.Match w w') (hB : B.Plain) (source : String) :
    (w.runLine source).1 = (w'.runLine source).1 ∧ B.Match (w.runLine source).2 (w'.runLine source).2 := by
  obtain ⟨hr, hu⟩ := hw.run hB source
  unfold World.runLine
  revert hr hu
  generalize w.run source = p
  generalize w'.run source = p'
  obtain ⟨r, u⟩ := p
  obtain ⟨r', u'⟩ := p'
  intro hr hu
  cases hr with
  | error hs => exact hu.complain hs
  | @ok v v' hv =>
    have hplain := hu.plain hv
    have hfault : ∀ f, u'.plain v' = .error f → B.Ends (.fault f) (.fault f) :=
      fun f h => .fault (.known (u'.known_plain v' f h))
    cases hv
    case null => exact ⟨rfl, hu⟩
    all_goals
      dsimp only
      rw [hplain]
      revert hfault
      generalize u'.plain _ = text
      intro hfault
      cases text with
      | ok text => exact ⟨rfl, hu.say _⟩
      | error f => exact hu.complain (hfault f rfl)

/-! ## sessions -/

/-- **Sessions from states that stand for each other end alike and write the same.** -/
theorem Match.consoleTurns (hw : B.Match w w') (hB : B.Plain) (fuel : Nat) (buffer : List String) :
    (w.consoleTurns fuel buffer).1 = (w'.consoleTurns fuel buffer).1 ∧
      ∃ text, (w.consoleTurns fuel buffer).2.output = B.start.output ++ text ∧
        (w'.consoleTurns fuel buffer).2.output = B.start'.output ++ text := by
  induction fuel generalizing buffer B w w' with
  | zero => exact ⟨rfl, hw.output⟩
  | succ fuel ih =>
    cases hin : w.input with
    | nil =>
      have hend {u : World} (hu : u.input = []) :
          u.consoleTurns (fuel + 1) buffer = (none, (u.say (prompt buffer)).say "\n") := by
        rw [World.consoleTurns]
        simp only [World.say, hu]
      rw [hend hin, hend (hw.input ▸ hin)]
      exact ⟨rfl, ((hw.say _).say _).output⟩
    | cons line rest =>
      have hline : w.input.head? = some line := by rw [hin]; rfl
      have hasked := hw.asked buffer
      rw [consoleTurns_line hline, consoleTurns_line (hw.input ▸ hline)]
      split
      · exact ⟨rfl, hasked.output⟩
      split
      · -- the states after the reset are the start of what follows
        obtain ⟨C, hC, hs, hs', hr⟩ := hasked.reset hB
        obtain ⟨hfault, text, ht, ht'⟩ := ih (hr.say "Interpreter reset.\n") hC []
        obtain ⟨before, hb, hb'⟩ := hasked.output
        refine ⟨hfault, before ++ text, ?_, ?_⟩
        · rw [ht, hs, ← String.append_assoc, ← hb]
          rfl
        · rw [ht', hs', ← String.append_assoc, ← hb']
          rfl
      split
      · exact ih hasked hB _
      · obtain ⟨hfault, hnext⟩ := hasked.runLine hB ("\n".intercalate (buffer ++ [line]))
        revert hfault hnext
        generalize (w.asked buffer).runLine _ = r
        generalize (w'.asked buffer).runLine _ = r'
        obtain ⟨ended, u⟩ := r
        obtain ⟨ended', u'⟩ := r'
        rintro rfl hnext
        cases ended with
        | none => exact ih hnext hB []
        | some s => exact ⟨rfl, hnext.output⟩

end Bond

/-! ## the states of a session -/

/-- the state stands for itself, and the text of functions shows a given name -/
def World.Ready (name : String) (w : World) : Prop :=
  ∃ B : Bond, B.Plain ∧ B.Match w w ∧ w.moduleName = name

theorem World.Fresh.ready {w : World} {args : List String} (h : w.Fresh args) : w.Ready w.moduleName := by
  obtain ⟨B, hB, -, -, hw⟩ := h.bond h rfl rfl rfl rfl
  exact ⟨B, hB, hw, rfl⟩

theorem Turn.ready {d d' : Dialog} {line : String} {use : Use} {name : String} (ht : Turn d line use d')
    (h : d.state.Ready name) : d'.state.Ready name := by
  obtain ⟨B, hB, hw, hn⟩ := h
  cases ht with
  | reset hline hword =>
    obtain ⟨C, hC, -, -, hr⟩ := (hw.asked []).reset hB
    exact ⟨C, hC, hr.say _, hn⟩
  | keep hline hword hmore => exact ⟨B, hB, hw.asked _, hn⟩
  | @run w u buffer _ chunk _ hc hrun htold =>
    have hu := ((hw.asked buffer).run hB chunk).2
    rw [hrun] at hu
    exact ⟨B, hB, hu.say _, hu.named.trans (hw.named.symm.trans hn)⟩
  | @fail w u buffer _ chunk _ hc hrun _ | @stall w u buffer _ chunk hc hrun =>
    have hu := ((hw.asked buffer).run hB chunk).2
    rw [hrun] at hu
    exact ⟨B, hB, hu, hu.named.trans (hw.named.symm.trans hn)⟩

theorem Turns.ready {d d' : Dialog} {log : List (String × Use)} {name : String} (hs : Turns d log d')
    (h : d.state.Ready name) : d'.state.Ready name := by
  induction hs with
  | nil d => exact h
  | cons ht _ ih => exact ih (ht.ready h)

/-- the state after a reset is one to start from -/
theorem World.Ready.fresh {w : World} {name : String} (h : w.Ready name) {args : List String}
    (hargs : w.list w.arguments = (args.map Value.str).toArray) : w.reset.Fresh args := by
  obtain ⟨B, hB, hw, -⟩ := h
  have hlt : w.arguments < w.lists.size := by
    obtain ⟨k, hk, -⟩ := hw.lists.size
    have hroom := hB.room
    rw [hw.arguments, hk]
    omega
  refine ⟨?_, hw.emptyTuple, ?_, rfl, rfl⟩
  · rw [← hargs, World.list, Array.getD_eq_getD_getElem?]
    show w.lists[w.arguments]? = _
    rw [Array.getElem?_eq_getElem hlt]
    rfl
  · show (w.scopes.push _)[w.scopes.size]? = _
    rw [Array.getElem?_push_size, hargs, List.size_toArray, List.length_map]
    rfl

/-! ## starting over -/

/-- what ends a session, and what it has written -/
def transcript (r : Option Signal × World) : Option Signal × String := (r.1, r.2.output)

/-- a session with given arguments reads lines from its start, one after the other. No text is unfinished after
them, no file was touched, and the lines that follow are left. -/
structure Played (argv : List String) (disk : Disk) (name : String) (lines rest : List String) (w : World) :
    Prop where
  turns : ∃ log, Turns ⟨[], (World.start argv (lines ++ rest) disk name).say banner, none⟩ log ⟨[], w, none⟩ ∧
    log.map Prod.fst = lines
  input : w.input = rest
  handles : w.handles = #[]
  disk : w.disk = disk

/-- a session that starts over goes on as one that starts with the arguments that are left -/
theorem Played.reset {argv args lines rest : List String} {disk : Disk} {name line : String} {w : World}
    (h : Played argv disk name lines (line :: rest) w) (hword : Text.strip line = ":reset")
    (hargs : w.list w.arguments = (args.map Value.str).toArray) :
    ∃ ended text, transcript (World.start argv (lines ++ line :: rest) disk name).console =
        (ended, w.output ++ prompt [] ++ "Interpreter reset.\n" ++ text) ∧
      transcript (World.start args rest disk name).console = (ended, banner ++ text) := by
  obtain ⟨log, hs, hlog⟩ := h.turns
  have hready := hs.ready ((World.fresh_start argv (lines ++ line :: rest) disk name).say banner).ready
  have hline : w.input.head? = some line := by
    rw [h.input]
    rfl
  have hreset := Turn.reset hline hword
  have hfuel : (lines ++ line :: rest).length + 1 = log.length + (rest.length + 1 + 1) := by
    rw [← hlog, List.length_append, List.length_map, List.length_cons, Nat.add_assoc]
  have hsession : (World.start argv (lines ++ line :: rest) disk name).console =
      ((w.asked []).reset.say "Interpreter reset.\n").consoleTurns (rest.length + 1) [] := by
    rw [console_proceed]
    show Dialog.proceed _ ((lines ++ line :: rest).length + 1) = _
    rw [hfuel]
    exact (hs.proceed _).trans (hreset.proceed _)
  -- both go on from states to start from
  have hasked : (w.asked []).Ready name := by
    obtain ⟨B, hB, hw, hn⟩ := hready
    exact ⟨B, hB, hw.asked [], hn⟩
  have hinput : (w.asked []).input = rest := congrArg List.tail h.input
  have hmodule : (w.asked []).moduleName = name := by
    obtain ⟨-, -, -, hn⟩ := hasked
    exact hn
  obtain ⟨B, hB, hstart, hstart', hw⟩ := ((hasked.fresh hargs).say "Interpreter reset.\n").bond
    ((World.fresh_start args rest disk name).say banner) h.handles hmodule h.disk hinput
  obtain ⟨hfault, text, ht, ht'⟩ := hw.consoleTurns hB (rest.length + 1) []
  rw [hstart] at ht
  have hbanner : ((World.start args rest disk name).say banner).output = banner := String.empty_append
  rw [hstart', hbanner] at ht'
  rw [hsession]
  exact ⟨_, text, Prod.ext hfault ht, Prod.ext rfl ht'⟩

/-- **A reset isolates what follows, up to the command line arguments.** Take two sessions that have read some
lines, with no text unfinished and no file touched, and then start over. If the lists of arguments hold the same
texts by then, what follows is written the same in both and ends alike, and as in a session that is started with
these arguments. That list is not made anew: what the lines before put into it is still there. -/
theorem reset_isolates {argv argv' args lines lines' rest : List String} {line line' name : String}
    {disk : Disk} {w w' : World} (h : Played argv disk name lines (line :: rest) w)
    (h' : Played argv' disk name lines' (line' :: rest) w') (hword : Text.strip line = ":reset")
    (hword' : Text.strip line' = ":reset") (hargs : w.list w.arguments = (args.map Value.str).toArray)
    (hargs' : w'.list w'.arguments = (args.map Value.str).toArray) :
    ∃ ended text,
      transcript (World.start argv (lines ++ line :: rest) disk name).console =
        (ended, w.output ++ prompt [] ++ "Interpreter reset.\n" ++ text) ∧
      transcript (World.start argv' (lines' ++ line' :: rest) disk name).console =
        (ended, w'.output ++ prompt [] ++ "Interpreter reset.\n" ++ text) ∧
      transcript (World.start args rest disk name).console = (ended, banner ++ text) := by
  obtain ⟨ended, text, hs, hf⟩ := h.reset hword hargs
  obtain ⟨ended', text', hs', hf'⟩ := h'.reset hword' hargs'
  obtain ⟨rfl, hsame⟩ := Prod.mk.inj (hf.symm.trans hf')
  obtain rfl := (String.append_right_inj banner).mp hsame
  exact ⟨ended, text, hs, hs', hf⟩

theorem appendArgument_read :
    parseSource "__argv.append(\"x\")" = .ok [.call (.getAttr (.var "__argv") "append") [.str "x"] []] := by
  have ht : tokenize "__argv.append(\"x\")" = [⟨.ident, "__argv"⟩, ⟨.symbol, "."⟩, ⟨.ident, "append"⟩,
      ⟨.symbol, "("⟩, ⟨.string, "x"⟩, ⟨.symbol, ")"⟩] := by decide +kernel
  rw [parseSource, ht]
  rfl

/-- a session without arguments that has read a line which adds one -/
def World.argumentAdded : World :=
  { World.start [] [":reset", "__argc"] default "main" with
    lists := #[#[.str "x"]]
    output := "" ++ banner ++ prompt [] ++ "" }

theorem appendArgument_turn :
    Turn ⟨[], (World.start [] ["__argv.append(\"x\")", ":reset", "__argc"] default "main").say banner, none⟩
      "__argv.append(\"x\")" (.run "__argv.append(\"x\")") ⟨[], .argumentAdded, none⟩ := by
  have hrun : (((World.start [] ["__argv.append(\"x\")", ":reset", "__argc"] default "main").say banner).asked
      []).run "__argv.append(\"x\")" =
        (.ok .null, { World.argumentAdded with output := "" ++ banner ++ prompt [] }) := by
    have hfuel : ∃ n, runFuel = n + 3 := ⟨runFuel - 3, (Nat.sub_add_cancel (by decide)).symm⟩
    obtain ⟨n, hn⟩ := hfuel
    rw [World.run, ← runOn_machine, runOn_ok appendArgument_read, hn]
    rfl
  have hline : ((World.start [] ["__argv.append(\"x\")", ":reset", "__argc"] default "main").say
      banner).input.head? = some "__argv.append(\"x\")" := rfl
  have htext : "\n".intercalate ([] ++ ["__argv.append(\"x\")"]) = "__argv.append(\"x\")" := by decide +kernel
  have hmore : needsMore "__argv.append(\"x\")" = false := by decide +kernel
  have hcommand : ¬ IsCommand "__argv.append(\"x\")" := by
    unfold IsCommand
    decide +kernel
  exact .run ⟨hline, fun _ => hcommand, htext.symm, hmore⟩ hrun fun signal hs => by cases hs

theorem argumentAdded_played :
    Played [] default "main" ["__argv.append(\"x\")"] [":reset", "__argc"] .argumentAdded :=
  ⟨⟨_, .cons appendArgument_turn (.nil _), rfl⟩, rfl, rfl, rfl⟩

/-- after a reset, a session without arguments whose first line adds one goes on as a session with that argument -/
theorem reset_isolates_added :
    Played [] default "main" ["__argv.append(\"x\")"] [":reset", "__argc"] .argumentAdded ∧
      ∃ ended text,
        transcript (World.start [] ["__argv.append(\"x\")", ":reset", "__argc"] default "main").console =
          (ended, World.argumentAdded.output ++ prompt [] ++ "Interpreter reset.\n" ++ text) ∧
        transcript (World.start ["x"] [":reset", "__argc"] default "main").console =
          (ended, ((World.start ["x"] [":reset", "__argc"] default "main").say banner).output ++ prompt [] ++
            "Interpreter reset.\n" ++ text) ∧
        transcript (World.start ["x"] ["__argc"] default "main").console = (ended, banner ++ text) := by
  have hplayed : Played ["x"] default "main" [] [":reset", "__argc"]
      ((World.start ["x"] [":reset", "__argc"] default "main").say banner) :=
    ⟨⟨[], .nil _, rfl⟩, rfl, rfl, rfl⟩
  have hword : Text.strip ":reset" = ":reset" := by decide +kernel
  have h := @reset_isolates [] ["x"] ["x"] ["__argv.append(\"x\")"] [] ["__argc"] ":reset" ":reset" "main" default _ _
    argumentAdded_played hplayed hword hword rfl rfl
  rw [List.singleton_append, List.nil_append] at h
  exact ⟨argumentAdded_played, h⟩

end BraceScript
