import NodeScript.Proofs.Containment
import NodeScript.Store

/-!
Calls in the graphs of a store. The check of a store finds the targets of calls by the name that
editors write for the field; a call itself also accepts the plain name. Where what is written under
the plain name alone can be called too, no call of a store without errors misses its target, however
deep the calls nest.
-/

namespace NodeScript

variable {h : Heap} {fields : Fields} {call : Call} {name key : String} {i : Instruction}
  {g : Graph} {S : Store} {settings : Settings} {l : Library} {depth : Nat} {s : Setup} {m : Machine}

/-! ### Names of called functions -/

/-- The instruction is a call that names this function, in either spelling of the field. -/
def Instruction.Names (i : Instruction) (name : String) : Prop :=
  i.control = some .call ∧ name ≠ "" ∧
    (i.config.get? "functionName" = some (.text name) ∨
      i.config.get? "functionName" = none ∧ i.config.get? "function_name" = some (.text name))

/-- The instruction is a call that names this function by the plain spelling alone. -/
def Instruction.NamesPlainly (i : Instruction) (name : String) : Prop :=
  i.control = some .call ∧ name ≠ "" ∧ i.config.get? "functionName" = none ∧
    i.config.get? "function_name" = some (.text name)

theorem Call.decoder_functionName (hd : Call.decoder h fields = .valid call) :
    Decoder.textOrNil ⟨"functionName", "function_name"⟩ fields = .valid call.functionName := by
  obtain ⟨g, _, hg, -, rfl⟩ := Checked.exists_of_seq hd
  obtain ⟨g', _, hg', -, rfl⟩ := Checked.exists_of_seq hg
  obtain ⟨functionName, hname, rfl⟩ := Checked.exists_of_map hg'
  exact hname

theorem Check.eq_text_of_orNil {v : Value}
    (h : Check.orNil Check.text v = .valid (some name)) : v = .text name := by
  cases v <;> simp_all [Check.orNil, Check.text, Checked.map, Checked.fail]

theorem Decoder.textOrNil_eq_some {field : FieldName}
    (hd : Decoder.textOrNil field fields = .valid (some name)) :
    fields field.editor = some (.text name) ∨
      fields field.editor = none ∧ fields field.plain = some (.text name) := by
  unfold Decoder.textOrNil Decoder.optional Decoder.find? at hd
  cases he : fields field.editor with
  | some v =>
    simp only [he] at hd
    obtain rfl := Check.eq_text_of_orNil (Checked.valid_of_within hd)
    exact Or.inl rfl
  | none =>
    cases hp : fields field.plain with
    | none => simp [he, hp] at hd
    | some v =>
      simp only [he, hp, Option.map_some] at hd
      obtain rfl := Check.eq_text_of_orNil (Checked.valid_of_within hd)
      exact Or.inr ⟨rfl, rfl⟩

theorem Instruction.names_of_decoder (hi : i.control = some .call)
    (hd : Call.decoder h i.config.get? = .valid call)
    (hname : givenName? call.functionName = some name) : i.Names name := by
  obtain ⟨hsome, hne⟩ := Option.filter_eq_some_iff.1 hname
  have hfield := Call.decoder_functionName hd
  rw [hsome] at hfield
  exact ⟨hi, by simpa using hne, Decoder.textOrNil_eq_some hfield⟩

/-- The check of a graph sees the names in the spelling of editors. -/
theorem Graph.mem_calledFunctions (hi : i ∈ g.instructions) (hn : i.Names name) :
    name ∈ g.calledFunctions ∨ i.NamesPlainly name := by
  obtain ⟨hcall, hne, heditor | hplain⟩ := hn
  · left
    refine List.mem_filterMap.2 ⟨i, hi, ?_⟩
    simp [hcall, heditor, hne]
  · exact Or.inr ⟨hcall, hne, hplain⟩

/-! ### The check of a store -/

namespace Store

/-- A function graph stands under the name's key. -/
def CanCall (S : Store) (name : String) : Prop :=
  ∃ callee, S.get? (functionKey S.functionPrefix name) = some callee ∧ callee.isCallable

/-- What calls name by the plain spelling alone can be called. -/
def PlainCallable (S : Store) : Prop :=
  ∀ key g, (key, g) ∈ S.graphs.entries → ∀ i ∈ g.instructions, ∀ name, i.NamesPlainly name →
    S.CanCall name

theorem canCall_of_errors (hS : S.errors = []) (hg : (key, g) ∈ S.graphs.entries)
    (hn : name ∈ g.calledFunctions) : S.CanCall name := by
  have hgraph := List.flatMap_eq_nil_iff.1 hS (key, g) hg
  have hcalls := (List.append_eq_nil_iff.1 hgraph).2
  have hcall := List.filterMap_eq_nil_iff.1 hcalls name hn
  dsimp only at hcall
  split at hcall
  · cases hcall
  · next callee hget =>
    refine ⟨callee, hget, ?_⟩
    by_contra hcallable
    simp [hcallable] at hcall

theorem canCall_of_names (hS : S.errors = []) (hplain : S.PlainCallable)
    (hg : (key, g) ∈ S.graphs.entries) (hi : i ∈ g.instructions) (hn : i.Names name) :
    S.CanCall name := by
  obtain hmem | hn := Graph.mem_calledFunctions hi hn
  · exact canCall_of_errors hS hg hmem
  · exact hplain key g hg i hi name hn

theorem mem_entries (hg : S.get? key = some g) : (key, g) ∈ S.graphs.entries := by
  obtain ⟨⟨key', _⟩, hfind, rfl⟩ := Option.map_eq_some_iff.1 hg
  obtain rfl : key' = key := by simpa using List.find?_some hfind
  exact List.mem_of_find?_eq_some hfind

end Store

/-! ### Runs that call runs -/

namespace Library

/-- What the run of a called graph goes by, below which calls nest at most `depth` deep. -/
def calleeSetup (l : Library) (depth room : Nat) (callee : Graph) : Setup :=
  setupFor l.settings (l.runFunction depth) callee.instructions true (room - callLevels)

theorem runFunction_of_resolve {callee : Graph} {room : Nat} {args : List Value}
    {notices : Array Diagnostic} (hr : l.resolve h key = .ok callee) :
    l.runFunction depth room key args h notices =
      if depth = 0 then .error (.call (.tooDeep l.settings.maxCallDepth key))
      else if room < callLevels then .error (.tooDeep .call)
      else .ok ((l.calleeSetup (depth - 1) room callee).run (callee.parameters.getD []) args h
        notices) := by
  cases depth with
  | zero => rfl
  | succ depth =>
    simp only [runFunction, hr, bind, Except.bind, Nat.add_one_ne_zero, if_false,
      Nat.add_sub_cancel]
    split <;> rfl

/-- The states of a run of a graph and of the runs that it calls, however deep; below a state, calls
nest at most so deep. -/
inductive Reaches (l : Library) (g : Graph) : (depth : Nat) → Setup → Machine → Prop
  | top {n : Nat} {m : Machine} {c : Context} {scope : Bool} {cancelAfter : Option Nat} {s : Setup}
      (hs : s = l.setup g.instructions scope cancelAfter) (hc : s.Begins c)
      (ht : s.Takes n { context := c } m) : Reaches l g l.settings.maxCallDepth s m
  | called {depth n : Nat} {s s' : Setup} {m m' : Machine} {i : Instruction} {call : Call}
      {name : String} {args : List Value} {c c' : Context} {callee : Graph}
      (h : Reaches l g (depth + 1) s m) (hi : s.program.instructions[m.pc]? = some i)
      (hcontrol : i.control = some .call) (hready : s.Ready m)
      (hcall : Call.decoder m.context.heap i.config.get? = .valid call)
      (hname : givenName? call.functionName = some name)
      (hsend : call.send (Setup.visit i m).context = .ok args c)
      (hresolve : l.resolve c.heap (functionKey s.settings.functionPrefix name) = .ok callee)
      (hroom : callLevels ≤ c.room) (hs : s' = l.calleeSetup depth c.room callee)
      (hc : c' = (s'.start c.heap c.notices).bindParameters (callee.parameters.getD []) args)
      (ht : s'.Takes n { context := c' } m') : Reaches l g depth s' m'

end Library

namespace Store

theorem resolve_of_get? {callee : Graph} (hg : S.get? key = some callee)
    (hcallable : callee.isCallable) (h : Heap) :
    (S.library settings).resolve h key = .ok callee := by
  simp [Library.resolve, library, lookup, hg, hcallable, bind, Except.bind, pure, Except.pure]

theorem get?_of_resolve {callee : Graph} (hr : (S.library settings).resolve h key = .ok callee) :
    S.get? key = some callee := by
  simp only [Library.resolve, library, lookup] at hr
  cases hg : S.get? key with
  | none => simp [hg, bind, Except.bind] at hr
  | some found =>
    simp only [hg, Option.map_some, bind, Except.bind, pure, Except.pure] at hr
    split at hr
    · cases hr
      rfl
    · cases hr

theorem resolve_eq_ok_iff {callee : Graph} :
    (S.library settings).resolve h key = .ok callee ↔
      S.get? key = some callee ∧ callee.isCallable := by
  constructor
  · intro hr
    have hget := get?_of_resolve hr
    refine ⟨hget, ?_⟩
    by_contra hcallable
    simp [Library.resolve, library, lookup, hget, hcallable, bind, Except.bind, pure,
      Except.pure] at hr
  · rintro ⟨hget, hcallable⟩
    exact resolve_of_get? hget hcallable h

/-- Every run that a run of a graph of the store calls is one of a graph of the store. -/
theorem reaches_graph (hg : S.get? key = some g) (h : (S.library settings).Reaches g depth s m) :
    ∃ key' g', S.get? key' = some g' ∧ s.program = .ofInstructions g'.instructions ∧
      s.settings = settings ∧ s.caller = (S.library settings).caller depth := by
  cases h with
  | top hs hc ht =>
    subst hs
    exact ⟨key, g, hg, rfl, rfl, rfl⟩
  | called h hi hcontrol hready hcall hname hsend hresolve hroom hs hc ht =>
    subst hs
    exact ⟨_, _, get?_of_resolve hresolve, rfl, rfl, rfl⟩

theorem mem_of_getElem? {instructions : List Instruction} {pc : Nat}
    (h : (Program.ofInstructions instructions).instructions[pc]? = some i) :
    ∃ given ∈ instructions, i.control = given.control ∧ i.config = given.config := by
  simp only [Program.ofInstructions, List.getElem?_toArray, List.getElem?_map,
    List.getElem?_zipIdx, Option.map_map, Option.map_eq_some_iff] at h
  obtain ⟨given, hg, rfl⟩ := h
  refine ⟨given, List.mem_of_getElem? hg, by simp, ?_⟩
  simp only [Function.comp, Program.identify]
  split <;> rfl

/-- A store finds graphs, never data. -/
theorem not_findsUnusable (h : Heap) (key : String) :
    ¬ (S.library settings).FindsUnusable h key := by
  rintro ⟨_, v, ⟨⟩, hv, -⟩
  simp [lookup] at hv

/-- What the log says of a call besides its result: nothing, that the called graph failed, or that
calls nest too deep. -/
inductive Notes (settings : Settings) (depth : Nat) (label : Option String) (name key : String) :
    List Record → Prop
  | clean : Notes settings depth label name key []
  | failed (r : RunResult) (h : r.success = false) :
      Notes settings depth label name key [Library.failureRecord key r]
  | tooDeep (h : depth = 0) : Notes settings depth label name key
      [Call.faultRecord label name (.call (.tooDeep settings.maxCallDepth key))]

/-- What a call comes to whose target is there. -/
theorem notes_outcome {callee : Graph} {c : Context} {args : List Value}
    (hget : S.get? key = some callee) (hcallable : callee.isCallable)
    (hroom : ¬ (0 < depth ∧ c.room < callLevels)) (label : Option String) (name : String)
    (heap : Heap) (notices : Array Diagnostic) :
    Notes settings depth label name key (Call.outcome label name key
      ((S.library settings).runFunction depth c.room key args heap notices)).problem := by
  rw [Library.runFunction_of_resolve (resolve_of_get? hget hcallable heap)]
  by_cases hdepth : depth = 0
  · simp only [hdepth, if_true, Call.outcome]
    exact .tooDeep rfl
  · have henough : ¬ c.room < callLevels := fun h => hroom ⟨Nat.pos_of_ne_zero hdepth, h⟩
    simp only [hdepth, henough, if_false]
    generalize Setup.run _ _ _ _ _ = r
    cases hr : r.success with
    | true =>
      simp only [Call.outcome, hr, if_true]
      exact .clean
    | false =>
      simp only [Call.outcome, hr, Bool.false_eq_true, if_false]
      exact .failed r hr

/-- In a store without errors, whose plainly named functions can be called as well, every call that
is carried out in a run of one of its graphs, or in a run below it, finds its target. What the log
says of a call is that it has no name, that the called graph failed or that calls nest too deep. A
call fails the run that it is in only by an argument that cannot be read or by want of room. -/
theorem calls_find_targets {S : Store} (hS : S.errors = []) (hplain : S.PlainCallable)
    {settings : Settings} (hstart : settings.functionPrefix = S.functionPrefix) {key : String}
    {g : Graph} (hg : S.get? key = some g) {depth : Nat} {s : Setup} {m : Machine}
    (h : (S.library settings).Reaches g depth s m) {i : Instruction}
    (hi : s.program.instructions[m.pc]? = some i) (hcontrol : i.control = some .call)
    (hready : s.Ready m) {call : Call}
    (hcall : Call.decoder m.context.heap i.config.get? = .valid call) :
    (∀ name, givenName? call.functionName = some name → S.CanCall name) ∧
    ((∃ m', s.step i m = (m', some .failed) ∧
        (call.Unsendable m.context.room ∨ 0 < depth ∧ m.context.room < callLevels)) ∨
      ∃ problem output m', s.step i m = (m', none) ∧
        m'.context.results.toList = m.context.results.toList ++
          (problem ++ [Setup.resultRecord i output]).map .record ∧
        (givenName? call.functionName = none ∧ problem = [] ∧ output = Call.nameless ∨
          ∃ name, givenName? call.functionName = some name ∧
            Notes settings depth (some i.displayName) name
              (functionKey settings.functionPrefix name) problem)) := by
  obtain ⟨key', g', hg', hprogram, hsettings, hcaller⟩ := reaches_graph hg h
  have hfinds (name : String) (hname : givenName? call.functionName = some name) :
      S.CanCall name := by
    rw [hprogram] at hi
    obtain ⟨given, hgiven, hsame, hconfig⟩ := mem_of_getElem? hi
    refine canCall_of_names hS hplain (mem_entries hg') hgiven ?_
    rw [hconfig] at hcall
    exact Instruction.names_of_decoder (hsame ▸ hcontrol) hcall hname
  refine ⟨hfinds, ?_⟩
  have hstep := Setup.step_call hready hcontrol hcall
  rw [hcaller, hsettings] at hstep
  obtain ⟨hfails, f, c', he⟩ | ⟨hsafe, v, problem, output, c', hanswers, ho, hleaves⟩ :=
    call.run_cases (S.library settings) depth settings.functionPrefix (Setup.visit i m).context
  · rw [he] at hstep
    refine Or.inl ⟨_, hstep, ?_⟩
    obtain ⟨name, -, hbad | ⟨args, c₁, -, hdepth, hunusable | ⟨hroom, -⟩⟩⟩ := hfails
    · exact Or.inl hbad
    · exact absurd hunusable (not_findsUnusable _ _)
    · exact Or.inr ⟨hdepth, hroom⟩
  · rw [ho] at hstep
    refine Or.inr ⟨problem, output, _, hstep, (hleaves.logged i output).results, ?_⟩
    cases hanswers with
    | nameless hname => exact Or.inl ⟨hname, rfl, rfl⟩
    | @named name _ args c₁ _ hname hkey hsend houtcome =>
      subst hkey houtcome
      obtain ⟨callee, hget, hcallable⟩ := hfinds name hname
      rw [← hstart] at hget
      refine Or.inr ⟨name, hname, notes_outcome hget hcallable ?_ _ _ _ _⟩
      -- Without room for the called graph the call would have failed its caller.
      rintro ⟨hdepth, hroom⟩
      exact hsafe ⟨name, hname, Or.inr ⟨args, c₁, hsend, hdepth,
        Or.inr ⟨hroom, callee, resolve_of_get? hget hcallable _⟩⟩⟩

/-- A call whose field for the name has this spelling. -/
def callBy (field name : String) : Instruction where
  tag := "call"
  config := .ofList [(field, .text name)]
  runtimeId := some "first"

/-- A graph that calls a function which calls itself by the plain spelling. -/
def looping : Store :=
  { graphs := .ofList [("main", { instructions := [callBy "functionName" "f"] }),
      ("func:f", { instructions := [callBy "function_name" "f"], parameters := some [] })] }

theorem looping_plainCallable : looping.PlainCallable := by
  have hcan : looping.CanCall "f" := ⟨_, rfl, rfl⟩
  have hnames : ∀ entry ∈ looping.graphs.entries, ∀ i ∈ entry.2.instructions,
      i.config.get? "function_name" = none ∨ i.config.get? "function_name" = some (.text "f") := by
    decide
  rintro key g hg i hi name ⟨-, -, -, hname⟩
  obtain hnone | hf := hnames (key, g) hg i hi
  · simp [hnone] at hname
  · obtain rfl : "f" = name := by simpa [hf] using hname
    exact hcan

def loopingMain : Setup := (looping.library {}).setup [callBy "functionName" "f"] false

def loopingCallee : Setup :=
  (looping.library {}).calleeSetup 63 nestingLimit
    { instructions := [callBy "function_name" "f"], parameters := some [] }

theorem looping_reaches : (looping.library {}).Reaches
    { instructions := [callBy "functionName" "f"] } 63 loopingCallee
    { context := loopingCallee.start {} #[] } := by
  have hmain : (looping.library {}).Reaches { instructions := [callBy "functionName" "f"] } 64
      loopingMain { context := loopingMain.start {} #[] } :=
    .top rfl (Setup.begins_bindParameters _ [] [] {} #[]) (.refl _)
  have hsend : Call.send ⟨some "f", [], "functionResult"⟩ (Setup.visit (callBy "functionName" "f")
      { context := loopingMain.start {} #[] }).context = .ok [] _ := rfl
  exact .called hmain rfl rfl ⟨rfl, rfl, rfl⟩ rfl rfl hsend rfl (by decide) rfl rfl (.refl _)

/-- The function finds itself, one call below the graph that was run. -/
theorem looping_finds_itself :
    looping.CanCall "f" ∧
    ∃ problem output m', loopingCallee.step (callBy "function_name" "f")
        { context := loopingCallee.start {} #[] } = (m', none) ∧
      m'.context.results.toList =
        (problem ++ [Setup.resultRecord (callBy "function_name" "f") output]).map .record ∧
      Notes {} 63 (some "call") "f" "func:f" problem := by
  have hcall : Call.decoder {} (callBy "function_name" "f").config.get? =
      .valid ⟨some "f", [], "functionResult"⟩ := rfl
  have hgoes : (loopingCallee.step (callBy "function_name" "f")
      { context := loopingCallee.start {} #[] }).2 = none := by
    decide +kernel
  obtain ⟨hfinds, ⟨m', hstep, -⟩ | ⟨problem, output, m', hstep, hresults, hnotes⟩⟩ :=
    calls_find_targets (S := looping) (by decide +kernel) looping_plainCallable rfl
      (show looping.get? "main" = some _ from rfl) looping_reaches (i := callBy "function_name" "f")
      rfl rfl ⟨rfl, rfl, rfl⟩ hcall
  · rw [hstep] at hgoes
    cases hgoes
  · obtain ⟨hnone, -⟩ | ⟨name, hname, hnotes⟩ := hnotes
    · cases hnone
    · cases hname
      exact ⟨hfinds "f" rfl, problem, output, m', hstep, hresults, hnotes⟩

/-- A graph that calls by the plain spelling what is not there. -/
def missing : Store :=
  { graphs := .ofList [("main", { instructions := [callBy "function_name" "nope"] })] }

def missingSetup : Setup := (missing.library {}).setup [callBy "function_name" "nope"] false

/-- The check of a store does not see a call by the plain spelling, which then finds nothing. -/
theorem missing_not_found :
    missing.errors = [] ∧ (missing.library {}).Reaches
        { instructions := [callBy "function_name" "nope"] } 64 missingSetup
        { context := missingSetup.start {} #[] } ∧
      ∃ m', missingSetup.step (callBy "function_name" "nope")
          { context := missingSetup.start {} #[] } = (m', none) ∧
        m'.context.results.toList.head? = some (.record
          (Call.faultRecord (some "call") "nope" (.call (.notFound "func:nope")))) := by
  refine ⟨by decide +kernel, ?_, _, rfl, rfl⟩
  exact .top rfl (Setup.begins_bindParameters _ [] [] {} #[]) (.refl _)

end Store

end NodeScript
