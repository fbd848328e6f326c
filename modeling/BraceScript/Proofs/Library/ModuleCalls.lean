import BraceScript.Proofs.Exec.Occasion
import BraceScript.Proofs.Library.Bond

/-!
# Calls into a library

A call of a member of a library that was included by a call ends as a call by name does after a statement has
included it, as long as it does not look up a name that the two inclusions bind differently: a name of the
library, or that of the dictionary. The functions of a library see the global variables only, so that a function
that calls another one of its own file does look up such a name, and ends with a fault in one case and with a
value in the other.

* `Bond.Exported`     what a name of a library is bound to after both inclusions
* `World.hides`       does a tree look up a name that is bound differently?
* `NeverLooksUp`      a call of a member never comes to such a tree
* `SameOutcome`       evaluations with the same value, output and error
* `module_call`       calls of members and calls by name end alike
-/

namespace BraceScript

open Exec

/-! ## members -/

theorem get?_libraryDict {ds : List Definition} (hd : (boundNames ds).Nodup) (r k : Nat) (name : String) :
    (libraryDict r k ds).get? name =
      ((functionMembers k (functionsOf ds)).lookup name).or ((classMembers r (classesOf ds)).lookup name) := by
  have hfunctions := hd.sublist (keys_functionMembers k ds)
  have hclasses := hd.sublist (classNames_sublist ds)
  rw [← keys_classMembers r] at hclasses
  rw [libraryDict, Dict.get?_putAll _ hfunctions, Dict.get?_putAll _ hclasses]
  exact congrArg _ Option.or_none

theorem get?_libraryDict_none {ds : List Definition} (hd : (boundNames ds).Nodup) (r k : Nat) {name : String}
    (hn : name ∉ boundNames ds) : (libraryDict r k ds).get? name = none := by
  have hfunctions : (functionMembers k (functionsOf ds)).lookup name = none :=
    lookup_eq_none fun hm => hn ((keys_functionMembers k ds).subset hm)
  have hclasses : (classMembers r (classesOf ds)).lookup name = none := by
    refine lookup_eq_none fun hm => hn ((classNames_sublist ds).subset ?_)
    rwa [keys_classMembers] at hm
  rw [get?_libraryDict hd, hfunctions, hclasses]
  rfl

namespace Bond

/-- what a name of a library is bound to after both inclusions: functions that stand for each other, or
constructors of the same class -/
inductive Exported (B : Bond) (ds : List Definition) : Value → Value → Prop
  | function {i j : Nat} (h : B.functions.Pairs i j) : Exported B ds (.function i) (.function j)
  | constructor {q : Nat} {c : ClassDecl Node} (h : (classesOf ds)[q]? = some c) :
    Exported B ds (.callable q) (.callable q)

namespace Library

variable {args input : List String} {disk : Disk} {moduleName x : String} {ds : List Definition} {B : Bond}
  {u : World} (h : B.Library (World.start args input disk moduleName) u x ds)
include h

theorem member (hd : (boundNames ds).Nodup) {name : String} (hn : name ∈ boundNames ds) :
    ∃ v v', (libraryDict 0 (allMethodsIn (classesOf ds)).length ds).get? name = some v ∧
      (fileMembers 0 0 ds).lookup name = some v' ∧ B.Exported ds v v' := by
  have hkeys : ((fileMembers 0 0 ds).map Prod.fst).Nodup := by
    rw [keys_fileMembers]
    exact hd
  rw [← keys_fileMembers 0 0, List.mem_map] at hn
  obtain ⟨⟨name, v'⟩, hmem, rfl⟩ := hn
  have hv := lookup_of_mem hkeys hmem
  rw [get?_libraryDict hd]
  rcases members_rel hd h.functions hv with ⟨i, j, hf, rfl, hp⟩ | ⟨q, c, hf, hc, rfl, hq⟩
  · exact ⟨.function i, .function j, by rw [hf]; rfl, hv, .function hp⟩
  · rw [Nat.zero_add] at hc hv
    exact ⟨.callable q, .callable q, by rw [hf, hc]; rfl, hv, .constructor hq⟩

/-! ## calls of members -/

/-- the cell of a constructor holds it, whatever has run since -/
theorem constructor {w w' : World} (hw : B.Match w w') {q : Nat} {c : ClassDecl Node}
    (hq : (classesOf ds)[q]? = some c) :
    w.callable q = constructorOf true c ∧ w'.callable q = constructorOf false c := by
  have hlt := (List.getElem?_eq_some_iff.mp hq).1
  have hcell : B.inert (.callable q) := by
    rw [h.inert]
    exact hlt
  have hcell' : B.inert' (.callable q) := by
    rw [h.inert']
    exact hlt
  obtain ⟨hl, hn⟩ := h.frozen hcell
  obtain ⟨hr, hn'⟩ := h.frozen' hcell'
  have hkept := hw.callables.kept q hl hn
  have hkept' := hw.callables.kept' q hr hn'
  rw [h.start] at hkept
  rw [h.start'] at hkept'
  have hstart (included : Bool) :
      (addConstructors included #[] (classesOf ds))[q]? = some (constructorOf included c) := by
    rw [addConstructors_eq, List.getElem?_toArray, List.getElem?_map, hq]
    rfl
  constructor
  · rw [World.callable, Array.getD_eq_getD_getElem?, hkept]
    exact congrArg (Option.getD · _) (hstart true)
  · rw [World.callable, Array.getD_eq_getD_getElem?, hkept']
    exact congrArg (Option.getD · _) (hstart false)

theorem sim_callConstructor (hc : ∀ d ∈ ds, d.node.Closed) {m m' : Machine} (hm : B.Machines m m') {q : Nat}
    {c : ClassDecl Node} (hq : (classesOf ds)[q]? = some c) {vs vs' : List Value} (hv : B.Vals vs vs') :
    B.Sim B.Val (callValue m (.callable q) vs) (callValue m' (.callable q) vs') := by
  refine sim_get fun hw => ?_
  obtain ⟨hcell, hcell'⟩ := h.constructor hw hq
  have hclosed := classesOf_closed hc c (List.mem_of_getElem? hq)
  obtain ⟨name, parents, fields, methods, nested⟩ := c
  rw [ClassDecl.classes, List.forall_mem_cons] at hclosed
  rw [hcell, hcell']
  exact sim_construct hm name _ hclosed.1.1 hv

theorem sim_applyMember (hc : ∀ d ∈ ds, d.node.Closed) {m m' m₁ m₁' : Machine} (hm : B.Machines m m')
    (hcall : m.call = callValue m₁) (hcall' : m'.call = callValue m₁') (hm₁ : B.Machines m₁ m₁') {v v' : Value}
    (hv : B.Exported ds v v') {s s' : Nat} (hs : B.scopes.Pairs s s') (callee callee' : Node)
    {ts ts' : List Node} (ht : B.Trees ts ts') {ks ks' : List (String × Node)} (hk : Tables B.Tree ks ks') :
    B.Sim B.Val (applyCall m s callee ts ks (.value v)) (applyCall m' s' callee' ts' ks' (.value v')) := by
  cases hv with
  | function hp => exact sim_applyFunction hm hs ht hk callee callee' hp
  | constructor hq =>
    refine sim_applyCallable hm hs ht hk callee callee' fun {vs vs'} hvs => ?_
    rw [hcall, hcall']
    exact h.sim_callConstructor hc hm₁ hq hvs

end Library

end Bond

/-! ## names that are bound differently -/

/-- does a tree look up one of some names where it is bound as it is in a state? -/
def World.hides (w : World) (names : List String) (scope : Nat) (v : World) (t : Node) : Bool :=
  (t.lookups scope v.globals).any fun p =>
    names.contains p.2 && decide ((v.scope p.1).find? p.2 = (w.scope w.globals).find? p.2)

namespace Bond.Library

variable {args input : List String} {disk : Disk} {moduleName x : String} {ds : List Definition} {B : Bond}
  {u : World} (h : B.Library (World.start args input disk moduleName) u x ds)
include h

theorem clear {s : Nat} {v : World} {t : Node}
    (hv : ((World.start args input disk moduleName).included x ds).hides (x :: boundNames ds) s v t = false) :
    B.Clear s v t := by
  refine ⟨?_, fun name _ => h.free name⟩
  rintro p hp ⟨hforeign, hbound⟩
  have hname : (x :: boundNames ds).contains p.2 = true :=
    List.contains_iff_mem.mpr (List.mem_cons.mpr ((h.names p.2).mp hforeign))
  rw [Bond.own, h.start, h.home] at hbound
  rw [World.hides, List.any_eq_false] at hv
  refine hv p hp ?_
  rw [hname, Bool.true_and]
  exact decide_eq_true hbound

theorem guarded_outcome (hc : ∀ d ∈ ds, d.node.Closed)
    (hw : B.Match ((World.start args input disk moduleName).included x ds)
      ((World.start args input disk moduleName).stated ds)) {v v' : Value} (hv : B.Exported ds v v') (n : Nat)
    (callee : Node) {callee' : Node} {ts : List Node} {ks : List (String × Node)}
    (ht : (Node.call callee' ts ks).Closed) :
    B.Outcome B.Val
      (applyCall (guarded (((World.start args input disk moduleName).included x ds).hides (x :: boundNames ds)) u
        (n + 2)) (World.start args input disk moduleName).globals callee ts ks (.value v)
        ((World.start args input disk moduleName).included x ds))
      (applyCall (machine (n + 2)) (World.start args input disk moduleName).globals callee' ts ks (.value v')
        ((World.start args input disk moduleName).stated ds)) := by
  have hm (k : Nat) : B.Machines (guarded (((World.start args input disk moduleName).included x ds).hides
      (x :: boundNames ds)) u k) (machine k) := machines_guarded h.stops h.clear k
  have hshape : B.Shape (.call callee' ts ks) (.call callee' ts ks) := .closed ht rfl
  cases hshape with
  | call _ hts hks =>
    exact h.sim_applyMember hc (hm (n + 2)) rfl rfl (hm (n + 1)) hv h.globals callee callee' hts hks _ _ hw

end Bond.Library

/-- include a library by a call and call a member of it. The machine for what comes after the name of the member
is made from the state that there is then. -/
def memberCall (n : Nat) (x file member : String) (args : List Node) (keywords : List (String × Node))
    (follow : World → Machine) : Exec Value := do
  let globals := (← get).globals
  let _ ← (machine (n + 3)).exec (.assign x (.call (.var "include") [.str file] [])) globals
  let f ← evalCallee (machine (n + 2)) globals (.getAttr (.var x) member)
  applyCall (follow (← get)) globals (.getAttr (.var x) member) args keywords f

/-- a call of a member never looks up one of some names where it is bound as after the inclusion: a machine that
stops there does not stop, whatever the state that it would leave -/
def NeverLooksUp (n : Nat) (names : List String) (x file member : String) (args : List Node)
    (keywords : List (String × Node)) (w : World) : Prop :=
  ∀ u, memberCall n x file member args keywords (fun v => guarded (v.hides names) u (n + 2)) w =
    memberCall n x file member args keywords (fun _ => machine (n + 2)) w

/-! ## programs -/

/-- outcomes with the same value, output and error: values that stand for each other in states that do, apart
from variables of some names -/
inductive SameOutcome (names : List String) :
    EStateM.Result Signal World Value → EStateM.Result Signal World Value → Prop
  | value {B : Bond} {v v' : Value} {w w' : World} (hn : ∀ name, B.foreign name → name ∈ names)
    (hw : B.Match w w') (hv : B.Val v v') (ht : w.shown v = w'.shown v') (ho : w.output = w'.output) :
    SameOutcome names (.ok v w) (.ok v' w')
  | error {B : Bond} {s s' : Signal} {w w' : World} (hn : ∀ name, B.foreign name → name ∈ names)
    (hw : B.Match w w') (hs : B.Ends s s') (ht : w.signalText s = w'.signalText s')
    (ho : w.output = w'.output) : SameOutcome names (.error s w) (.error s' w')

section
variable {args input : List String} {disk : Disk} {moduleName x : String} {ds : List Definition}

theorem Bond.Library.sameOutcome {B : Bond} {u : World}
    (h : B.Library (World.start args input disk moduleName) u x ds)
    {r r' : EStateM.Result Signal World Value} (hr : B.Outcome B.Val r r') (hu : r ≠ .error .exhausted u) :
    SameOutcome (x :: boundNames ds) r r' := by
  have hnames : ∀ name, B.foreign name → name ∈ x :: boundNames ds :=
    fun name hf => List.mem_cons.mpr ((h.names name).mp hf)
  have houtput {w w' : World} (hw : B.Match w w') : w.output = w'.output := by
    obtain ⟨text, ht, ht'⟩ := hw.output
    rw [ht, ht', h.start, h.start']
    rfl
  cases hr with
  | ok hv hw => exact .value hnames hw hv (hw.shown hv) (houtput hw)
  | error hs hw => exact .error hnames hw hs (hw.signalText hs) (houtput hw)
  | stop hstop => exact absurd (congrArg _ (h.stopped hstop)) hu

/-- a member of a library that has been included by a call -/
theorem evalCallee_member (args input : List String) (disk : Disk) (moduleName x : String) (n : Nat)
    (hd : (boundNames ds).Nodup) (htype : "__type__" ∉ boundNames ds) {name : String} {v : Value}
    (hv : (libraryDict 0 (allMethodsIn (classesOf ds)).length ds).get? name = some v) :
    evalCallee (machine (n + 2)) 0 (.getAttr (.var x) name)
        ((World.start args input disk moduleName).included x ds) =
      .ok (.value v) ((World.start args input disk moduleName).included x ds) := by
  have hx : (((World.start args input disk moduleName).included x ds).scope 0).find? x = some (.dict 0) := by
    show ((World.initialScope args.length 0).insert x (.dict 0)).find? x = _
    rw [Scope.find?_insert, if_pos rfl]
  have hdict : ((World.start args input disk moduleName).included x ds).dict 0 =
      libraryDict 0 (allMethodsIn (classesOf ds)).length ds := by
    show libraryDict 0 (0 + (allMethodsIn (classesOf ds)).length) ds = _
    rw [Nat.zero_add]
  have hvar : (machine (n + 2)).exec (.var x) 0 ((World.start args input disk moduleName).included x ds) =
      .ok (.dict 0) ((World.start args input disk moduleName).included x ds) := by
    show lookup 0 x _ = _
    rw [lookup, bind_run, get_run]
    simp only [hx]
    rfl
  have hget : getAttribute (.dict 0) name ((World.start args input disk moduleName).included x ds) =
      .ok v ((World.start args input disk moduleName).included x ds) := by
    rw [getAttribute, bind_run, get_run]
    simp only [hdict, get?_libraryDict_none hd 0 _ htype, hv]
    rfl
  rw [evalCallee, bind_run, hvar]
  simp only [methodOf?, bind_run, hget, pure_run]

end

/-! ## what is read -/

theorem parseProgram_closed {source : String} {body : List Node} {w u : World}
    (h : parseProgram source w = .ok body u) : ∀ t ∈ body, t.Closed := by
  unfold parseProgram at h
  cases hp : parseSource source with
  | ok body' =>
    rw [hp] at h
    cases h
    exact parseSource_closed hp
  | error e =>
    rw [hp] at h
    cases h

theorem moduleProgram_closed {file : String} {body : List Node} {w u : World}
    (h : moduleProgram [.str file] w = .ok body u) : ∀ t ∈ body, t.Closed := by
  obtain ⟨path, w₁, -, h⟩ := bind_ok h
  obtain ⟨source, w₂, -, h⟩ := bind_ok h
  exact parseProgram_closed h

/-! ## both programs -/

section
variable {x member : String} {ds : List Definition} (ts : List Node) (ks : List (String × Node))
  {v : Value} (n : Nat)

/-- the call of a member, once the library has been included and the member is known -/
theorem memberCall_run {file : String} {w : World}
    (hinclude : (machine (n + 3)).exec (.assign x (.call (.var "include") [.str file] [])) w.globals w =
      .ok (.dict w.dicts.size) (w.included x ds))
    (hmember : evalCallee (machine (n + 2)) w.globals (.getAttr (.var x) member) (w.included x ds) =
      .ok (.value v) (w.included x ds)) (follow : World → Machine) :
    memberCall n x file member ts ks follow w =
      applyCall (follow (w.included x ds)) w.globals (.getAttr (.var x) member) ts ks (.value v)
        (w.included x ds) := by
  unfold memberCall
  rw [bind_run, get_run]
  dsimp only
  rw [bind_run, hinclude]
  dsimp only
  rw [bind_run, hmember]
  rfl

/-- a program that includes a library by a call, from the call of a member on -/
theorem runSource_member {source file : String} {w : World}
    (hs : parseSource source = .ok [.assign x (.call (.var "include") [.str file] []),
      .call (.getAttr (.var x) member) ts ks])
    (hinclude : (machine (n + 3)).exec (.assign x (.call (.var "include") [.str file] [])) w.globals w =
      .ok (.dict w.dicts.size) (w.included x ds))
    (hmember : evalCallee (machine (n + 2)) w.globals (.getAttr (.var x) member) (w.included x ds) =
      .ok (.value v) (w.included x ds)) :
    runSource (n + 3) source w =
      (applyCall (machine (n + 2)) w.globals (.getAttr (.var x) member) ts ks (.value v) >>=
        afterStatement (machine (n + 3)) w.globals []) (w.included x ds) := by
  rw [← runOn_machine, runOn_ok hs, bind_run, get_run]
  dsimp only
  rw [runBlock_statement _ _ _ rfl, bind_run, hinclude]
  show runBlock (machine (n + 3)) w.globals (.dict w.dicts.size) [.call (.getAttr (.var x) member) ts ks]
    (w.included x ds) = _
  rw [runBlock_statement _ _ _ rfl]
  show (evalCallee (machine (n + 2)) w.globals (.getAttr (.var x) member) >>=
    applyCall (machine (n + 2)) w.globals (.getAttr (.var x) member) ts ks >>=
      afterStatement (machine (n + 3)) w.globals []) (w.included x ds) = _
  rw [bind_assoc, bind_run, hmember]

/-- a program that includes a library by a statement, from the call by name on -/
theorem runSource_named {source path : String} {w : World}
    (hs : parseSource source = .ok [.includeFile path, .call (.var member) ts ks])
    (hinclude : (machine (n + 3)).exec (.includeFile path) w.globals w = .ok .null (w.stated ds))
    (hmember : ((w.stated ds).scope w.globals).find? member = some v) :
    runSource (n + 3) source w =
      (applyCall (machine (n + 2)) w.globals (.var member) ts ks (.value v) >>=
        afterStatement (machine (n + 3)) w.globals []) (w.stated ds) := by
  have hvar : evalCallee (machine (n + 2)) w.globals (.var member) (w.stated ds) = .ok (.value v) (w.stated ds) := by
    show (lookup w.globals member >>= fun v => pure (Callee.value v)) (w.stated ds) = _
    simp only [lookup, bind_run, get_run, hmember, pure_run]
  rw [← runOn_machine, runOn_ok hs, bind_run, get_run]
  dsimp only
  rw [runBlock, bind_run, hinclude]
  dsimp only
  rw [runBlock_statement _ _ _ rfl]
  show (evalCallee (machine (n + 2)) w.globals (.var member) >>=
    applyCall (machine (n + 2)) w.globals (.var member) ts ks >>=
      afterStatement (machine (n + 3)) w.globals []) (w.stated ds) = _
  rw [bind_assoc, bind_run, hvar]

end

theorem Bond.sim_afterLast {B : Bond} {m m' : Machine} {s s' : Nat} {v v' : Value} (hv : B.Val v v') :
    B.Sim B.Val (afterStatement m s [] v) (afterStatement m' s' [] v') := by
  refine sim_bind (sim_returned hv) fun ho => ?_
  cases ho with
  | none => exact sim_pure hv
  | some hr => exact sim_pure hr

/-- **Calls of members and calls by name end alike.** Take a file of classes and functions with distinct names,
whose methods come after their classes, and none of which is named `__type__`. One program includes it by a call,
binds the dictionary to a name and calls a member; another one includes it by a statement and calls the function
or class by its name, with the same arguments. If the first call never looks up a name of the file, or that of the
dictionary, where it is bound as after the inclusion, both programs have the same value, output and error. -/
theorem module_call {args input : List String} {disk : Disk} {moduleName x file path member source source' : String}
    {ds : List Definition} {ts : List Node} {ks : List (String × Node)} {u u' : World} (n : Nat)
    (hs : parseSource source = .ok [.assign x (.call (.var "include") [.str file] []),
      .call (.getAttr (.var x) member) ts ks])
    (hs' : parseSource source' = .ok [.includeFile path, .call (.var member) ts ks])
    (hread : moduleProgram [.str file] (World.start args input disk moduleName) =
      .ok (ds.map Definition.node) u)
    (hread' : includedProgram path (World.start args input disk moduleName) = .ok (ds.map Definition.node) u')
    (hd : (boundNames ds).Nodup) (ha : attachedAfter [] ds = true) (htype : "__type__" ∉ boundNames ds)
    (hm : member ∈ boundNames ds)
    (hn : NeverLooksUp n (x :: boundNames ds) x file member ts ks (World.start args input disk moduleName)) :
    SameOutcome (x :: boundNames ds) (runSource (n + 3) source (World.start args input disk moduleName))
      (runSource (n + 3) source' (World.start args input disk moduleName)) := by
  obtain rfl := keeps_moduleProgram rfl file _ _ hread
  obtain rfl := keeps_includedProgram rfl path _ _ hread'
  have hc : ∀ d ∈ ds, d.node.Closed := fun d hd =>
    moduleProgram_closed hread _ (List.mem_map_of_mem hd)
  have hcall : (Node.call (.var member) ts ks).Closed :=
    parseSource_closed hs' _ (List.mem_cons_of_mem _ (List.mem_singleton_self _))
  -- the machine is told to leave a state that the program does not leave
  obtain ⟨left, hleft⟩ := exists_not_left (runSource (n + 3) source (World.start args input disk moduleName))
  obtain ⟨B, hB, hw⟩ := World.library_bond args input disk moduleName x left hd ha hc
  obtain ⟨v, v', hv, hv', hexported⟩ := hB.member hd hm
  have hinclude := exec_assign_include n x rfl hread
  have hmember := evalCallee_member args input disk moduleName x n hd htype hv
  have hfound := hB.own' hd member
  rw [hv', Bond.own', hB.start', hB.home'] at hfound
  -- the guarded call of the member simulates the call by name, and it is the call of the member
  have hcalls := memberCall_run ts ks n hinclude hmember
  have hsim := hB.guarded_outcome hc hw hexported n (.getAttr (.var x) member) hcall
  rw [← hcalls fun v => guarded (v.hides (x :: boundNames ds)) left (n + 2), hn left, hcalls] at hsim
  refine hB.sameOutcome ?_ hleft
  rw [runSource_member ts ks n hs hinclude hmember,
    runSource_named ts ks n hs' (exec_includeFile (n + 1) hread') hfound]
  exact hsim.bind fun hv hu => Bond.sim_afterLast hv _ _ hu

/-- a file with a class, a method that is attached to it and a function that makes a list:
`class Box { item = "u" } def Box.get() { self.item } def pair(a, b = "t") { [b, a] }` -/
def toolbox : String :=
  "class Box \x7b item = \"u\" \x7d def Box.get() \x7b self.item \x7d def pair(a, b = \"t\") \x7b [b, a] \x7d"

def toolboxDefinitions : List Definition :=
  [.classDecl (.mk "Box" [] [("item", some (.str "u"))] [] []),
    .function ⟨"Box.get", [.receiver], [.getAttr (.var "self") "item"]⟩,
    .function ⟨"pair", [.plain "a" none, .plain "b" (some (.str "t"))], [.list [.var "b", .var "a"]]⟩]

theorem parseSource_toolbox : parseSource toolbox = .ok (toolboxDefinitions.map Definition.node) := by
  have ht : tokenize toolbox = [⟨.keyword, "class"⟩, ⟨.ident, "Box"⟩, ⟨.symbol, "\x7b"⟩, ⟨.ident, "item"⟩,
      ⟨.op, "="⟩, ⟨.string, "u"⟩, ⟨.symbol, "\x7d"⟩, ⟨.keyword, "def"⟩, ⟨.ident, "Box"⟩, ⟨.symbol, "."⟩,
      ⟨.ident, "get"⟩, ⟨.symbol, "("⟩, ⟨.symbol, ")"⟩, ⟨.symbol, "\x7b"⟩, ⟨.ident, "self"⟩, ⟨.symbol, "."⟩,
      ⟨.ident, "item"⟩, ⟨.symbol, "\x7d"⟩, ⟨.keyword, "def"⟩, ⟨.ident, "pair"⟩, ⟨.symbol, "("⟩, ⟨.ident, "a"⟩,
      ⟨.symbol, ","⟩, ⟨.ident, "b"⟩, ⟨.op, "="⟩, ⟨.string, "t"⟩, ⟨.symbol, ")"⟩, ⟨.symbol, "\x7b"⟩,
      ⟨.symbol, "["⟩, ⟨.ident, "b"⟩, ⟨.symbol, ","⟩, ⟨.ident, "a"⟩, ⟨.symbol, "]"⟩, ⟨.symbol, "\x7d"⟩] := by
    decide +kernel
  rw [parseSource, ht]
  rfl

theorem parseSource_memberOfToolbox : parseSource "m = include(\"lib.fn\") m.pair(\"s\")" =
    .ok [.assign "m" (.call (.var "include") [.str "lib.fn"] []),
      .call (.getAttr (.var "m") "pair") [.str "s"] []] := by
  have ht : tokenize "m = include(\"lib.fn\") m.pair(\"s\")" = [⟨.ident, "m"⟩, ⟨.op, "="⟩, ⟨.ident, "include"⟩,
      ⟨.symbol, "("⟩, ⟨.string, "lib.fn"⟩, ⟨.symbol, ")"⟩, ⟨.ident, "m"⟩, ⟨.symbol, "."⟩, ⟨.ident, "pair"⟩,
      ⟨.symbol, "("⟩, ⟨.string, "s"⟩, ⟨.symbol, ")"⟩] := by decide +kernel
  rw [parseSource, ht]
  rfl

theorem parseSource_nameOfToolbox : parseSource "include \"lib.fn\" pair(\"s\")" =
    .ok [.includeFile "lib.fn", .call (.var "pair") [.str "s"] []] := by
  have ht : tokenize "include \"lib.fn\" pair(\"s\")" = [⟨.ident, "include"⟩, ⟨.string, "lib.fn"⟩,
      ⟨.ident, "pair"⟩, ⟨.symbol, "("⟩, ⟨.string, "s"⟩, ⟨.symbol, ")"⟩] := by decide +kernel
  rw [parseSource, ht]
  rfl

theorem moduleProgram_toolbox : moduleProgram [.str "lib.fn"] (World.withFile toolbox) =
    .ok (toolboxDefinitions.map Definition.node) (World.withFile toolbox) :=
  moduleProgram_file (by decide +kernel) parseSource_toolbox

theorem boundNames_toolbox : boundNames toolboxDefinitions = ["Box", "pair"] := by decide +kernel

/-- the state after the file has been included by a call -/
def World.withToolbox : World := (World.withFile toolbox).included "m" toolboxDefinitions

/-- the state after a call of `pair` -/
def World.paired : World :=
  { World.withToolbox with
    lists := #[#[.str "main.py", .str "prog.fn"], #[.str "t", .str "s"]]
    scopes := #[World.withToolbox.scope 0,
      ((World.withToolbox.scope 0).insert "a" (.str "s")).insert "b" (.str "t")] }

/-- the function of the file looks up its parameters only -/
theorem neverLooksUp_toolbox : NeverLooksUp 1 ("m" :: boundNames toolboxDefinitions) "m" "lib.fn" "pair" [.str "s"] []
    (World.withFile toolbox) := by
  intro left
  have hinclude := exec_assign_include 1 "m" rfl moduleProgram_toolbox
  have hmember : evalCallee (machine 3) 0 (.getAttr (.var "m") "pair") World.withToolbox =
      .ok (.value (.function 1)) World.withToolbox := rfl
  have hplain : applyCall (machine 3) 0 (.getAttr (.var "m") "pair") [.str "s"] [] (.value (.function 1))
      World.withToolbox = .ok (.list 1) World.paired := rfl
  have hguarded : applyCall (guarded (World.withToolbox.hides ["m", "Box", "pair"]) left 3) 0
      (.getAttr (.var "m") "pair") [.str "s"] [] (.value (.function 1)) World.withToolbox =
      .ok (.list 1) World.paired := rfl
  have hcalls := memberCall_run [.str "s"] [] 1 hinclude hmember
  rw [hcalls, hcalls, boundNames_toolbox]
  exact hguarded.trans hplain.symm

/-- the function of the file ends alike after both inclusions -/
theorem module_call_toolbox :
    NeverLooksUp 1 ("m" :: boundNames toolboxDefinitions) "m" "lib.fn" "pair" [.str "s"] []
        (World.withFile toolbox) ∧
      SameOutcome ("m" :: boundNames toolboxDefinitions)
        (runSource 4 "m = include(\"lib.fn\") m.pair(\"s\")" (World.withFile toolbox))
        (runSource 4 "include \"lib.fn\" pair(\"s\")" (World.withFile toolbox)) :=
  ⟨neverLooksUp_toolbox, module_call 1 parseSource_memberOfToolbox parseSource_nameOfToolbox moduleProgram_toolbox
    (includedProgram_file (by decide +kernel) parseSource_toolbox) (by rw [boundNames_toolbox]; decide)
    (by decide +kernel) (by rw [boundNames_toolbox]; decide) (by rw [boundNames_toolbox]; decide)
    neverLooksUp_toolbox⟩

end BraceScript
