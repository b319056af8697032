import NodeScript.Proofs.Refinement

/-!
What becomes of a caller when a graph that it calls cannot be found, made or run. The caller goes on
with nil and its log says why, but for the faults that no call contains; these are traced here to
their causes.
-/

set_option mvcgen.warning false

open Std.Do

namespace NodeScript

variable {h : Heap} {f : Fault} {v : Value} {key : String} {depth room : Nat} {args : List Value}
  {heap : Heap} {notices : Array Diagnostic} {l : Library} {s : Setup} {i : Instruction}
  {m m' : Machine} {c : Context}

/-! ### Graphs from data -/

/-- A node whose configuration cannot be merged with the members beside it: there are inline
members, or an identifier in the spelling of editors, and a configuration that is neither blank nor a map. -/
def Instruction.Unmergeable (h : Heap) (raw : Value) : Prop :=
  ∃ node config, h.map? raw = some node ∧ node.get? (.text "config") = some config ∧
    isBlankValue h config = false ∧ h.map? config = none ∧
    ((node.filter fun k => !isOwnMember k).isEmpty && !node.contains (.text "runtimeId")) = false

theorem Instruction.configSource_error_iff {node : Dict Key Value} :
    configSource h node = .error f ↔
      ∃ config, node.get? (.text "config") = some config ∧ isBlankValue h config = false ∧
        h.map? config = none ∧
        ((node.filter fun k => !isOwnMember k).isEmpty && !node.contains (.text "runtimeId")) =
          false ∧
        f = .notMapping (h.fullKindName config) := by
  unfold configSource
  dsimp only
  split
  · next hplain => simp [hplain]
  · next hplain =>
    rw [Bool.not_eq_true] at hplain
    cases hg : node.get? (.text "config") with
    | none => simp
    | some config =>
      cases hb : isBlankValue h config with
      | true => simp [hb]
      | false =>
        cases hm : h.map? config with
        | some entries => simp [hb, hm]
        | none =>
          simp only [hb, hm, Bool.false_eq_true, if_false, Except.error.injEq]
          constructor
          · rintro rfl
            exact ⟨config, rfl, hb, hm, hplain, rfl⟩
          · rintro ⟨_, ⟨⟩, -, -, -, rfl⟩
            rfl

theorem Instruction.ofValue_error_iff {raw : Value} :
    (∃ f, ofValue h raw = .error f) ↔ Unmergeable h raw := by
  unfold ofValue Unmergeable
  cases hm : h.map? raw with
  | none => simp
  | some node =>
    dsimp only
    cases hs : configSource h node with
    | ok source =>
      simp only [bind, Except.bind, pure, Except.pure, reduceCtorEq, exists_false, false_iff]
      rintro ⟨_, config, ⟨⟩, hg, hb, hc, hplain⟩
      simp [configSource_error_iff.2 ⟨config, hg, hb, hc, hplain, rfl⟩] at hs
    | error f =>
      simp only [bind, Except.bind, Except.error.injEq, exists_eq', true_iff]
      obtain ⟨config, hg, hb, hc, hplain, -⟩ := configSource_error_iff.1 hs
      exact ⟨node, config, rfl, hg, hb, hc, hplain⟩

@[spec] theorem Instruction.ofValue_uncontained (h : Heap) (raw : Value) :
    Uncontained (ofValue h raw) := by
  mvcgen [ofValue, configSource]

namespace Graph

theorem checkNodes_error_iff (index : Nat) {vs : List Value} :
    (∃ f, checkNodes h index vs = .error f) ↔ ∃ v ∈ vs, Instruction.Unmergeable h v := by
  induction vs generalizing index with
  | nil => simp [checkNodes]
  | cons v vs ih =>
    rw [List.exists_mem_cons_iff, ← Instruction.ofValue_error_iff, ← ih (index + 1)]
    cases hv : Instruction.ofValue h v with
    | error f => simp [checkNodes, hv, bind, Except.bind]
    | ok first =>
      cases hvs : checkNodes h (index + 1) vs with
      | error f => simp [checkNodes, hv, hvs, bind, Except.bind]
      | ok others => simp [checkNodes, hv, hvs, bind, Except.bind, pure, Except.pure]

@[spec] theorem checkNodes_uncontained (h : Heap) (index : Nat) (vs : List Value) :
    Uncontained (checkNodes h index vs) := by
  fun_induction checkNodes h index vs with
  | case1 => mvcgen
  | case2 index v vs ih => mvcgen [ih]

/-- The nodes of data that a graph may be made from. -/
def nodes? (h : Heap) (raw : Value) : Option (List Value) := do
  let entries ← h.map? raw
  let nodes ← Decoder.find? nodesName entries.fields
  h.array? nodes.2

/-- Data of a graph with a node that cannot be merged. -/
def Unmergeable (h : Heap) (raw : Value) : Prop :=
  ∃ nodes, nodes? h raw = some nodes ∧ ∃ node ∈ nodes, Instruction.Unmergeable h node

theorem ofValue_uncontained (h : Heap) (raw : Value) : Uncontained (ofValue h raw) := by
  mvcgen [ofValue, ofFields, checkInstructions]

/-- Making a graph from data fails only by a node that cannot be merged. -/
theorem ofValue_error_iff {raw : Value} {nodes : List Value} (hn : nodes? h raw = some nodes) :
    (∃ f, ofValue h raw = .error f) ↔ ∃ node ∈ nodes, Instruction.Unmergeable h node := by
  obtain ⟨entries, hm, hn⟩ := Option.bind_eq_some_iff.1 hn
  obtain ⟨⟨used, v⟩, hf, hn⟩ := Option.bind_eq_some_iff.1 hn
  rw [← checkNodes_error_iff 0]
  unfold ofValue ofFields checkInstructions
  simp only [hm, hf, hn]
  cases checkNodes h 0 nodes <;> simp [bind, Except.bind, pure, Except.pure]

end Graph

/-! ### Faults that no caller contains -/

/-- Fails by a fault that the caller of a graph does not contain. -/
def Escapes {α : Type} (x : Except Fault α) : Prop :=
  ∃ f, x = .error f ∧ Call.isContained f = false

namespace Library

theorem graphOfData_of_map? {h : Heap} {v : Value} {entries : Dict Key Value}
    (hm : h.map? v = some entries) (key : String) :
    graphOfData h key v =
      if (Graph.nodes? h v).isNone then .error (.call (.noNodes key))
      else Graph.ofValue h v >>= fun checked =>
        match checked with
        | .valid g => pure g
        | .invalid problems => .error (.call (.invalidGraph key problems.length)) := by
  have hnodes : (Decoder.find? Graph.nodesName entries.fields).map Prod.snd >>= h.array? =
      Graph.nodes? h v := by
    simp only [Graph.nodes?, hm, Option.bind_eq_bind, Option.bind_some, Option.bind_map]
    rfl
  rw [← hnodes]
  cases v with
  | table a =>
    simp only [graphOfData, hm]
    rfl
  | _ => simp [Heap.map?] at hm

theorem graphOfData_escapes_iff (h : Heap) (key : String) (v : Value) :
    Escapes (graphOfData h key v) ↔ v ≠ .nil ∧ h.map? v = none ∨ Graph.Unmergeable h v := by
  by_cases hnil : v = .nil
  · subst hnil
    simp [Escapes, graphOfData, Graph.Unmergeable, Graph.nodes?, Heap.map?, Call.isContained]
  cases hm : h.map? v with
  | none =>
    refine iff_of_true ⟨.notGraph (h.kindName v), ?_, rfl⟩ (Or.inl ⟨hnil, rfl⟩)
    cases v with
    | nil => exact absurd rfl hnil
    | _ => simp [graphOfData, hm]
  | some entries =>
    simp only [reduceCtorEq, and_false, false_or]
    rw [graphOfData_of_map? hm]
    cases hn : Graph.nodes? h v with
    | none => simp [Escapes, Graph.Unmergeable, hn, Call.isContained]
    | some nodes =>
      have hiff := Graph.ofValue_error_iff hn
      simp only [Graph.Unmergeable, hn, Option.some.injEq, exists_eq_left', ← hiff]
      cases ho : Graph.ofValue h v with
      | error f =>
        have hf := (Graph.ofValue_uncontained h v).of_error ho
        simp [Escapes, bind, Except.bind, hf]
      | ok checked =>
        cases checked <;>
          simp [Escapes, bind, Except.bind, pure, Except.pure, Call.isContained]

/-- What a lookup finds under a key is data with a node that cannot be merged, or is no data of a
graph at all. -/
def FindsUnusable (l : Library) (h : Heap) (key : String) : Prop :=
  ∃ lookup v, l.lookup = some lookup ∧ lookup h key = some (.data v) ∧
    (v ≠ .nil ∧ h.map? v = none ∨ Graph.Unmergeable h v)

theorem resolve_escapes_iff : Escapes (l.resolve h key) ↔ l.FindsUnusable h key := by
  unfold resolve FindsUnusable
  cases hlookup : l.lookup with
  | none => simp [Escapes, bind, Except.bind, Call.isContained]
  | some lookup =>
    cases hfound : lookup h key with
    | none => simp [Escapes, bind, Except.bind, Call.isContained, hfound]
    | some found =>
      cases found with
      | graph g =>
        cases hg : g.isCallable <;>
          simp [Escapes, bind, Except.bind, pure, Except.pure, Call.isContained, hfound, hg]
      | data v =>
        have hfinds : (∃ look w, some lookup = some look ∧ look h key = some (.data w) ∧
            (w ≠ .nil ∧ h.map? w = none ∨ Graph.Unmergeable h w)) ↔
            Escapes (graphOfData h key v) := by
          rw [graphOfData_escapes_iff]
          constructor
          · rintro ⟨_, w, ⟨⟩, hw, hu⟩
            cases hfound.symm.trans hw
            exact hu
          · exact fun hu => ⟨lookup, v, rfl, hfound, hu⟩
        rw [hfinds]
        cases hg : graphOfData h key v with
        | error f => simp [Escapes, bind, Except.bind, hfound, hg]
        | ok g =>
          cases hcall : g.isCallable <;>
            simp [Escapes, bind, Except.bind, pure, Except.pure, Call.isContained, hfound, hg,
              hcall]

/-- Whether a call with so many levels of nesting left fails by a fault that its caller does not
contain: there is depth for the call, but what is found under the key cannot be looked at or the
called graph has no room. -/
def CallEscapes (l : Library) (depth room : Nat) (key : String) (h : Heap) : Prop :=
  0 < depth ∧ (l.FindsUnusable h key ∨ room < callLevels ∧ ∃ g, l.resolve h key = .ok g)

theorem runFunction_escapes_iff :
    Escapes (l.runFunction depth room key args heap notices) ↔
      l.CallEscapes depth room key heap := by
  cases depth with
  | zero => simp [Escapes, runFunction, CallEscapes, Call.isContained]
  | succ depth =>
    simp only [runFunction, CallEscapes, Nat.zero_lt_succ, true_and, ← resolve_escapes_iff]
    cases hr : l.resolve heap key with
    | error f => simp [Escapes, bind, Except.bind]
    | ok g =>
      by_cases hroom : room < callLevels <;>
        simp [Escapes, bind, Except.bind, pure, Except.pure, hroom, Call.isContained]

end Library

/-! ### Arguments -/

/-- A text that no literal can be read from, in so many levels of nesting. -/
def Source.Unreadable (room : Nat) (source : Source) : Prop :=
  source.kind = .literal ∧ ∃ text f, source.value = .text text ∧ Literal.read room text = .error f

namespace Source

theorem resolve_cases (scope : Scope) (source : Source) (d : Draft) :
    (source.Unreadable d.room ∧ ∃ f d', source.resolve scope d = .error f d') ∨
      ¬ source.Unreadable d.room ∧
        ∃ v d', source.resolve scope d = .ok v d' ∧ d'.room = d.room := by
  obtain ⟨kind, value⟩ := source
  cases kind with
  | literal =>
    cases value with
    | text text =>
      have hliteral : resolve scope ⟨.literal, .text text⟩ d =
          match Literal.read d.room text with
          | .ok t => .ok (d.heap.store t).1 { d with heap := (d.heap.store t).2 }
          | .error f => .error f d := by
        simp only [resolve, Eval.literal, Eval.ask, Heap.literal, bind, EStateM.bind, Except.bind,
          get, getThe, MonadStateOf.get, EStateM.get]
        cases Literal.read d.room text <;> rfl
      cases hread : Literal.read d.room text with
      | error f =>
        rw [hread] at hliteral
        exact Or.inl ⟨⟨rfl, text, f, rfl, hread⟩, f, d, hliteral⟩
      | ok t =>
        rw [hread] at hliteral
        exact Or.inr ⟨by simp [Unreadable, hread], _, _, hliteral, rfl⟩
    | _ => exact Or.inr ⟨by simp [Unreadable], _, _, rfl, rfl⟩
  | _ =>
    refine Or.inr ⟨by simp [Unreadable], ?_⟩
    cases value <;> exact ⟨_, _, rfl, rfl⟩

theorem resolveAll_cases (scope : Scope) (sources : List Source) (d : Draft) :
    ((∃ source ∈ sources, source.Unreadable d.room) ∧
        ∃ f d', resolveAll scope sources d = .error f d') ∨
      (¬ ∃ source ∈ sources, source.Unreadable d.room) ∧
        ∃ vs d', resolveAll scope sources d = .ok vs d' := by
  induction sources generalizing d with
  | nil => exact Or.inr ⟨by simp, [], d, rfl⟩
  | cons source sources ih =>
    simp only [List.exists_mem_cons_iff, resolveAll, bind, EStateM.bind]
    obtain ⟨hbad, f, d', he⟩ | ⟨hgood, v, d', ho, hroom⟩ := source.resolve_cases scope d
    · exact Or.inl ⟨Or.inl hbad, f, d', by rw [he]⟩
    · rw [ho, ← hroom]
      obtain ⟨hbad, f, d'', he⟩ | ⟨hnone, vs, d'', ho'⟩ := ih d'
      · exact Or.inl ⟨Or.inr hbad, f, d'', by simp [he]⟩
      · exact Or.inr ⟨not_or.2 ⟨hroom ▸ hgood, hnone⟩, v :: vs, d'', by simp [ho']; rfl⟩

end Source

/-- The state after an evaluation differs in its heap and its reports only. -/
def Context.Evaluated (c c' : Context) : Prop :=
  c' = { c with heap := c'.heap, notices := c'.notices, diagnostics := c'.diagnostics }

theorem Context.evaluated_adopt (c : Context) (d : Draft) : c.Evaluated (c.adopt d) := by
  rw [adopt, ← Array.foldl_toList]
  have hheap : c.Evaluated { c with heap := d.heap } := rfl
  generalize { c with heap := d.heap } = c' at hheap
  induction d.warnings.toList generalizing c' with
  | nil => exact hheap
  | cons w ws ih =>
    refine ih _ ?_
    unfold Evaluated at hheap
    rw [hheap]
    rfl

theorem Exec.evaluated_of_ok {α : Type} {eval : Scope → Eval α} {a : α} {c c' : Context}
    (h : Exec.evaluate eval c = .ok a c') : c.Evaluated c' := by
  unfold Exec.evaluate at h
  dsimp only at h
  split at h <;> cases h
  exact Context.evaluated_adopt { c with heap := {} } _

namespace Call

variable (call : Call) (start : String) {name : String}

/-- The name of the variable that a call sets. -/
def result : String := nameOr call.resultVariable "functionResult"

/-- The arguments of a call, evaluated. -/
def send : Exec (List Value) :=
  Exec.evaluate fun scope => Source.resolveAll scope call.arguments

/-- Some argument of a call is a text that no literal can be read from. -/
def Unsendable (room : Nat) : Prop :=
  ∃ source ∈ call.arguments, source.Unreadable room

theorem send_cases (c : Context) :
    (call.Unsendable c.room ∧ ∃ f c', call.send c = .error f c') ∨
      ¬ call.Unsendable c.room ∧ ∃ args c', call.send c = .ok args c' ∧ c.Evaluated c' := by
  unfold send Exec.evaluate
  dsimp only
  obtain ⟨hbad, f, d, he⟩ | ⟨hgood, args, d, ho⟩ := Source.resolveAll_cases
    { c with heap := {} }.scope call.arguments { heap := c.heap, room := c.room }
  · exact Or.inl ⟨hbad, f, _, by rw [he]⟩
  · refine Or.inr ⟨hgood, args, _, by rw [ho], ?_⟩
    exact Context.evaluated_adopt { c with heap := {} } d

/-- What comes of a call. -/
structure Outcome where
  value : Value
  status : String
  /-- The entries about what went wrong. -/
  problem : List Record

/-- The entry about a fault that kept the called graph from running. -/
def faultRecord (label : Option String) (name : String) (f : Fault) : Record :=
  [("node", .textOrNil label), ("status", .text "error"),
   ("message", .text s!"Error in called function '{name}': {f.message}")]

/-- What a caller makes of the run of the called graph, or of the fault that prevented it. -/
def outcome (label : Option String) (name key : String) : Except Fault RunResult → Outcome
  | .ok r =>
    if r.success then ⟨r.returnValue, "success", []⟩
    else ⟨.nil, "success", [Library.failureRecord key r]⟩
  | .error f => ⟨.nil, "error", [faultRecord label name f]⟩

/-- The state of the caller after the called graph ran or was prevented from it. -/
def afterwards (o : Outcome) (x : Except Fault RunResult) (c : Context) : Context :=
  o.problem.foldl (fun c r => c.addRecord r) <|
    match x with
    | .ok r => { c with heap := r.context.heap, notices := r.context.notices }
    | .error _ => c

theorem invoke_contained {run : Library.Runner} {key : String} {args : List Value}
    {c : Context} (name : String) (hx : ¬ Escapes (run c.room key args c.heap c.notices)) :
    invoke (Library.asCaller run) name key args c =
      let x := run c.room key args c.heap c.notices
      let o := outcome c.label name key x
      .ok (o.value, o.status) (afterwards o x c) := by
  unfold invoke Library.asCaller
  dsimp only
  cases hr : run c.room key args c.heap c.notices with
  | ok r => cases hs : r.success <;> simp [outcome, afterwards, hs]
  | error f =>
    have hf : isContained f = true := by
      rw [← Bool.not_eq_false]
      exact fun hf => hx ⟨f, hr, hf⟩
    simp [outcome, faultRecord, afterwards, hf]

theorem invoke_escapes {run : Library.Runner} {key : String} {args : List Value}
    {c : Context} (name : String) (hx : Escapes (run c.room key args c.heap c.notices)) :
    ∃ f c', invoke (Library.asCaller run) name key args c = .error f c' := by
  obtain ⟨f, hr, hf⟩ := hx
  refine ⟨f, c, ?_⟩
  simp [invoke, Library.asCaller, hr, hf]

/-- The result of a call that has a name. -/
def answer (name key : String) (args : List Value) (status : String) (v : Value) : Record :=
  [("action", .text "callFunction"), ("status", .text status),
    ("function_called", .text name), ("graph_key", .text key), ("arguments_sent", .list args),
    ("result_variable", .text call.result), ("result", .value v)]

/-- The result of a call without a name. -/
def nameless : Record :=
  [("action", .text "callFunction"), ("status", .text "error"),
    ("message", .text "No valid function name specified")]

theorem run_nameless {call : Call} (h : givenName? call.functionName = none) (start : String)
    (caller : Caller) (c : Context) :
    call.run start caller c =
      .ok nameless ((c.setVariable call.result .nil).warn
        "Call Function: no valid function name selected.") := by
  simp only [run, h]
  rfl

theorem run_named {call : Call} (h : givenName? call.functionName = some name) (start : String)
    (caller : Caller) (c : Context) :
    call.run start caller c =
      match call.send c with
      | .error f c' => .error f c'
      | .ok args c' =>
        match invoke caller name (functionKey start name) args c' with
        | .error f c' => .error f c'
        | .ok (v, status) c' =>
          .ok (call.answer name (functionKey start name) args status v)
            (setResult call.result v c') := by
  simp only [run, h, bind, EStateM.bind, send]
  cases Exec.evaluate (fun scope => Source.resolveAll scope call.arguments) c with
  | error f c' => rfl
  | ok args c' =>
    dsimp only
    cases invoke caller name (functionKey start name) args c' <;> rfl

/-- A call fails its caller: an argument cannot be read, or the call fails by a fault that is not
contained. -/
def FailsCaller (l : Library) (depth : Nat) (start : String) (c : Context) : Prop :=
  ∃ name, givenName? call.functionName = some name ∧
    (call.Unsendable c.room ∨ ∃ args c', call.send c = .ok args c' ∧
      l.CallEscapes depth c.room (functionKey start name) c'.heap)

/-- What a call comes to: its value, the entries about a problem and its result. -/
inductive Answers (l : Library) (depth : Nat) (start : String) (c : Context) :
    Value → List Record → Record → Prop
  | nameless (h : givenName? call.functionName = none) :
      Answers l depth start c .nil [] nameless
  | named {name key : String} {args : List Value} {c' : Context} {o : Outcome}
      (h : givenName? call.functionName = some name) (hkey : key = functionKey start name)
      (hsend : call.send c = .ok args c')
      (ho : o = outcome c.label name key
        (l.runFunction depth c.room key args c'.heap c'.notices)) :
      Answers l depth start c o.value o.problem (call.answer name key args o.status o.value)

/-- What a call leaves in the variables and the log. -/
structure Leaves (v : Value) (problem : List Record) (c c' : Context) : Prop where
  results : c'.results.toList = c.results.toList ++ problem.map .record
  bound : Text.isScriptName call.result → c'.bindings = c.bindings.insert call.result v
  kept : c'.bindings = c.bindings ∨ c'.bindings = c.bindings.insert call.result v

theorem result_ne_empty : call.result ≠ "" := by
  unfold result nameOr
  split
  · decide
  · assumption

theorem addRecords_eq (rs : List Record) (c : Context) :
    rs.foldl (fun c r => c.addRecord r) c =
      { c with results := (c.results.toList ++ rs.map Entry.record).toArray } := by
  induction rs generalizing c with
  | nil => simp
  | cons r rs ih =>
    rw [List.foldl_cons, ih]
    simp [Context.addRecord, Context.addEntry]

theorem leaves_afterwards {c c' : Context} (hc : c.Evaluated c') (o : Outcome)
    (x : Except Fault RunResult) :
    call.Leaves o.value o.problem c (setResult call.result o.value (afterwards o x c')) := by
  have hresults :
      (afterwards o x c').results.toList = c.results.toList ++ o.problem.map .record := by
    unfold afterwards
    rw [addRecords_eq, hc]
    cases x <;> rfl
  have hbindings : (afterwards o x c').bindings = c.bindings := by
    unfold afterwards
    rw [addRecords_eq, hc]
    cases x <;> rfl
  unfold setResult
  split
  · next hname =>
    have hset : (afterwards o x c').setVariable call.result o.value =
        (afterwards o x c').bind call.result o.value := if_neg call.result_ne_empty
    rw [hset]
    exact ⟨hresults, fun _ => by rw [Context.bind, hbindings],
      Or.inr (by rw [Context.bind, hbindings])⟩
  · next hname => exact ⟨hresults, fun h => absurd h hname, Or.inl hbindings⟩

/-- A call either fails its caller or comes to an answer. -/
theorem run_cases (l : Library) (depth : Nat) (start : String) (c : Context) :
    (call.FailsCaller l depth start c ∧
        ∃ f c', call.run start (l.caller depth) c = .error f c') ∨
      ¬ call.FailsCaller l depth start c ∧
        ∃ v problem output c', call.Answers l depth start c v problem output ∧
          call.run start (l.caller depth) c = .ok output c' ∧ call.Leaves v problem c c' := by
  cases hname : givenName? call.functionName with
  | none =>
    refine Or.inr ⟨by simp [FailsCaller, hname], .nil, [], _, _, .nameless hname,
      run_nameless hname start _ c, ?_⟩
    have hset : c.setVariable call.result .nil = c.bind call.result .nil :=
      if_neg call.result_ne_empty
    rw [hset]
    exact ⟨by simp [Context.warn, Context.report, Context.bind], fun _ => rfl, Or.inr rfl⟩
  | some name =>
    rw [run_named hname]
    obtain ⟨hbad, f, c', he⟩ | ⟨hgood, args, c', hsend, hc⟩ := call.send_cases c
    · exact Or.inl ⟨⟨name, hname, Or.inl hbad⟩, f, c', by rw [he]⟩
    · rw [hsend]
      have hroom : c'.room = c.room := by rw [hc]
      have hlabel : c'.label = c.label := by rw [hc]
      have hiff : call.FailsCaller l depth start c ↔ Escapes (l.runFunction depth c'.room
          (functionKey start name) args c'.heap c'.notices) := by
        rw [Library.runFunction_escapes_iff, hroom]
        constructor
        · rintro ⟨_, hname', hbad | ⟨args', c'', hsend', hesc⟩⟩
          · exact absurd hbad hgood
          · cases hname.symm.trans hname'
            cases hsend.symm.trans hsend'
            exact hesc
        · exact fun hesc => ⟨name, hname, Or.inr ⟨args, c', hsend, hesc⟩⟩
      by_cases hesc : call.FailsCaller l depth start c
      · obtain ⟨f, c'', he⟩ := invoke_escapes name (hiff.1 hesc)
        exact Or.inl ⟨hesc, f, c'', by simp only [Library.caller, he]⟩
      · have hinvoke := invoke_contained name (mt hiff.2 hesc)
        refine Or.inr ⟨hesc, _, _, _, _, .named hname rfl hsend rfl, ?_,
          call.leaves_afterwards hc _
            (l.runFunction depth c.room (functionKey start name) args c'.heap c'.notices)⟩
        rw [hlabel, hroom] at hinvoke
        simp only [Library.caller, hinvoke]

end Call

theorem Call.Leaves.logged {call : Call} {problem : List Record} {c' : Context}
    (h : call.Leaves v problem c c') (i : Instruction) (output : Record) :
    call.Leaves v (problem ++ [Setup.resultRecord i output]) c
      (Setup.logged i (.record output) c') where
  results := by simp [Setup.logged, Context.addRecord, Context.addEntry, h.results]
  bound := h.bound
  kept := h.kept

/-- Evaluating a call whose configuration is accepted. -/
theorem evaluate_call (hi : i.control = some .call) {call : Call}
    (hcall : Call.decoder c.heap i.config.get? = .valid call) (start : String) (caller : Caller) :
    i.evaluate start caller c =
      match call.run start caller c with
      | .ok r c' => .ok (.record r) c'
      | .error f c' => .error f c' := by
  rw [Instruction.evaluate_of_control hi rfl]
  simp only [Handler.decoder, Functor.map, hcall, Checked.map, Handler.run, bind, EStateM.bind]
  cases call.run start caller c <;> rfl

namespace Setup

/-- Nothing is pending that keeps the instruction at hand from being dispatched. -/
structure Ready (s : Setup) (m : Machine) : Prop where
  going : s.isCancelled m = false
  unreturned : (m.context.returned.isSome && s.functionScope) = false
  unbroken : m.context.breakRequested = false

/-- Whether the instruction at hand is dispatched. -/
def isReady (s : Setup) (m : Machine) : Bool :=
  !s.isCancelled m && !(m.context.returned.isSome && s.functionScope) && !m.context.breakRequested

theorem isReady_iff : s.isReady m = true ↔ s.Ready m := by
  simp only [isReady, Bool.and_eq_true, Bool.not_eq_true']
  exact ⟨fun h => ⟨h.1.1, h.1.2, h.2⟩, fun h => ⟨⟨h.going, h.unreturned⟩, h.unbroken⟩⟩

theorem step_ready (h : s.Ready m) (i : Instruction) : s.step i m = s.dispatch i (visit i m) := by
  rw [step_apply, h.going, h.unreturned, h.unbroken]
  rfl

/-- A step at a call whose configuration is accepted goes behind it, unless the call fails. -/
theorem step_call (hready : s.Ready m) (hi : i.control = some .call) {call : Call}
    (hcall : Call.decoder m.context.heap i.config.get? = .valid call) :
    s.step i m =
      match call.run s.settings.functionPrefix s.caller (visit i m).context with
      | .error f c' =>
        ({ visit i m with context := s.fail f.kind (f.report i.displayName m.pc) (some m.pc) c' },
          some .failed)
      | .ok output c' =>
        ({ visit i m with context := logged i (.record output) c', pc := m.pc + 1 }, none) := by
  have hevaluate := evaluate_call (c := (visit i m).context) hi hcall s.settings.functionPrefix
    s.caller
  rw [step_ready hready, dispatch, isUnknown_of_control hi]
  simp only [Bool.false_eq_true, if_false, perform_apply, hi, hevaluate]
  cases call.run s.settings.functionPrefix s.caller (visit i m).context <;> rfl

/-- A call fails its caller only if an argument cannot be read, the data of the called graph has a
node that cannot be merged or is no data of a graph at all, or there is no room for another run.
However else the call goes, the caller goes on behind it: the result variable is set to what was
returned or to nil, and the log has the entries about what went wrong and the result of the call. -/
theorem call_survived_unless_failsCaller (l : Library) (depth : Nat) {s : Setup}
    (hs : s.caller = l.caller depth) {i : Instruction} {m : Machine} (hi : i.control = some .call)
    (hready : s.Ready m) {call : Call}
    (hcall : Call.decoder m.context.heap i.config.get? = .valid call) :
    (call.FailsCaller l depth s.settings.functionPrefix (visit i m).context ∧
        ∃ m', s.step i m = (m', some .failed)) ∨
      ¬ call.FailsCaller l depth s.settings.functionPrefix (visit i m).context ∧
        ∃ v problem output m',
          call.Answers l depth s.settings.functionPrefix (visit i m).context v problem output ∧
          s.step i m = (m', none) ∧ m'.pc = m.pc + 1 ∧
          call.Leaves v (problem ++ [resultRecord i output]) m.context m'.context ∧
          OnlyWarns m.context m'.context ∧ m'.context.loops = m.context.loops ∧
          m'.context.returned = m.context.returned ∧
          m'.context.breakRequested = m.context.breakRequested := by
  have hstep := step_call hready hi hcall
  obtain ⟨hfails, f, c', he⟩ | ⟨hsafe, v, problem, output, c', hanswers, ho, hleaves⟩ :=
    call.run_cases l depth s.settings.functionPrefix (visit i m).context
  · rw [hs, he] at hstep
    exact Or.inl ⟨hfails, _, hstep⟩
  · have hevaluate := evaluate_call (c := (visit i m).context) hi hcall s.settings.functionPrefix
      (l.caller depth)
    rw [ho] at hevaluate
    have hkeeps {R : Context → Context → Prop} (hR : Tolerant R) : R (visit i m).context c' := by
      have h : R _ (Exec.after (i.evaluate s.settings.functionPrefix (l.caller depth)) _) :=
        hR.instruction (by simp [hi]) (by simp [hi]) _ _ (visit i m).context
      rwa [Exec.after, hevaluate] at h
    have hlogged := hleaves.logged i output
    rw [hs, ho] at hstep
    refine Or.inr ⟨hsafe, v, problem, output, _, hanswers, hstep, rfl,
      ⟨hlogged.results, hlogged.bound, hlogged.kept⟩, ?_⟩
    exact ⟨hkeeps tolerant_onlyWarns, hkeeps tolerant_loops, hkeeps tolerant_returned,
      hkeeps tolerant_breakRequested⟩

/-- Graphs as data: a function `f` of one node. -/
def oneNode (node : Tree) : Value × Heap :=
  ({} : Heap).store <| .object
    [("func:f", .object [("parameters", .list []), ("nodes", .list [node])])]

def oneNodeLibrary (node : Tree) : Library :=
  { lookup := some (.ofData (oneNode node).1), settings := {} }

def callOfF : Instruction where
  tag := "call"
  config := .ofList [("functionName", .text "f"), ("resultVariable", .text "r")]
  runtimeId := some "first"

/-- A caller of `f`, and how it starts. -/
def callingF (node : Tree) : Setup := (oneNodeLibrary node).setup [callOfF] false

def callingFStart (node : Tree) : Machine where
  context := (callingF node).start (oneNode node).2 #[]

theorem callingF_ready (node : Tree) : (callingF node).Ready (callingFStart node) :=
  ⟨rfl, rfl, rfl⟩

/-- A node without a type, whose configuration is a list. -/
def untyped : Tree := .object [("config", .list [.int 1])]

/-- A node of a type, whose configuration is a list with a member beside it. -/
def unmerged : Tree :=
  .object [("id", .text "print"), ("message", .text "hi"), ("config", .list [.int 1])]

/-- A caller survives a graph whose node has no type: it goes on with nil, and its log has an entry
about the problem before the result of the call. -/
theorem untyped_survived :
    ∃ m', (callingF untyped).step callOfF (callingFStart untyped) = (m', none) ∧ m'.pc = 1 ∧
      m'.context.bindings = .ofList [("r", .nil)] ∧ m'.context.results.size = 2 := by
  have hcall : Call.decoder (callingFStart untyped).context.heap callOfF.config.get? =
      .valid ⟨some "f", [], "r"⟩ := by
    rfl
  have hgoes : ((callingF untyped).step callOfF (callingFStart untyped)).2 = none := by
    decide +kernel
  obtain ⟨-, m', hstep⟩ | ⟨-, v, problem, output, m', hanswers, hstep, hpc, hleaves, -⟩ :=
    call_survived_unless_failsCaller (oneNodeLibrary untyped) 64 rfl rfl (callingF_ready untyped)
      hcall
  · rw [hstep] at hgoes
    cases hgoes
  · have hbindings : ((callingF untyped).step callOfF (callingFStart untyped)).1.context.bindings =
        .ofList [("r", .nil)] := by
      decide +kernel
    have hresults : ((callingF untyped).step callOfF (callingFStart untyped)).1.context.results.size
        = 2 := by
      decide +kernel
    rw [hstep] at hbindings hresults
    exact ⟨m', hstep, hpc, hbindings, hresults⟩

/-- A graph whose node cannot be merged is a map found by the lookup like any other, and yet it
fails its caller. -/
theorem unmerged_fails_caller :
    (callingF unmerged).Ready (callingFStart unmerged) ∧
    (∃ call, Call.decoder (oneNode unmerged).2 callOfF.config.get? = .valid call) ∧
    (∃ v, GraphLookup.ofData (oneNode unmerged).1 (oneNode unmerged).2 "func:f" = some (.data v) ∧
      ((oneNode unmerged).2.map? v).isSome) ∧
    ((callingF unmerged).step callOfF (callingFStart unmerged)).2 = some .failed ∧
    ((callingF unmerged).runFrom (callingFStart unmerged).context).success = false :=
  ⟨callingF_ready unmerged, ⟨⟨some "f", [], "r"⟩, rfl⟩, ⟨.table 1, rfl, rfl⟩, by decide +kernel,
    by decide +kernel⟩

end Setup

end NodeScript
