import NodeScript.Proofs.Closed.Steps
import NodeScript.Proofs.Nodes

/-!
Runs that call runs stay closed. Whatever the machine does from a start that mentions only what the
heap holds, each of its runs has a closed context, and so a leaf that any of them comes to ends in a
record or in nothing, unless a limit of evaluation is exceeded.
-/

namespace NodeScript

variable {h g : Heap} {l : Library} {i : Instruction} {q : Request}

/-! ### Graphs that are found -/

theorem Instruction.Within.later (hi : i.Within h) (hg : h.Grows g) : i.Within g :=
  fun e he => (hi e he).later hg

theorem Instruction.within_of_ofValue (hh : h.Closed) {v : Value} (hv : v.Within h)
    (hr : ofValue h v = .ok (.valid i)) : i.Within h := by
  intro e he
  cases configures_of_ofValue hr e he with
  | inline hm hmem _ => exact hh.inherits_within.map? hv hm _ hmem
  | config hm hu hd hmem =>
    obtain ⟨e', he', rfl⟩ := Dict.exists_mem_of_get? hu
    exact hh.inherits_within.map? (hh.inherits_within.map? hv hm e' he') hd _ hmem

theorem Graph.within_of_ofValue (hh : h.Closed) {v : Value} {graph : Graph} (hv : v.Within h)
    (hr : ofValue h v = .ok (.valid graph)) : graph.Within h := by
  intro i hi
  obtain ⟨node, ⟨entries, used, nodes, items, hm, -, hget, hitems, hmem⟩, hnode⟩ :=
    node_of_ofValue hr i hi
  obtain ⟨e, he, rfl⟩ := Dict.exists_mem_of_get? hget
  have hnodes : e.2.Within h := hh.inherits_within.map? hv hm e he
  exact Instruction.within_of_ofValue hh (hh.inherits_within.array? hnodes hitems node hmem) hnode

namespace Library

/-- The graphs that a call finds lie in the heap of the call. -/
theorem within_of_resolve (hl : GraphLookup.Within h l.lookup) (hg : h.Grows g) (hgc : g.Closed)
    {key : String} {graph : Graph} (hr : l.resolve g key = .ok graph) : graph.Within g := by
  obtain ⟨lookup, settings⟩ := l
  cases hl with
  | none => cases hr
  | store s hs =>
    have hmem := Store.mem_entries (Store.get?_of_resolve hr)
    exact fun i hi => (hs _ hmem i hi).later hg
  | data v hv =>
    obtain ⟨entries, w, hm, hget, hgraph⟩ := ofValue_of_resolve hr
    obtain ⟨e, he, rfl⟩ := Dict.exists_mem_of_get? hget
    exact Graph.within_of_ofValue hgc (hgc.inherits_within.map? (hv.later hg) hm e he) hgraph

end Library

/-! ### The machine -/

variable {m : Machine} {s : Setup} {a : Activation} {callers : List Activation} {σ σ' : CallState}

/-- What a call asks for lies in the heap that it hands over. -/
theorem Setup.within_of_request? (hm : m.context.Closed) (hi : i.Within m.context.heap)
    (hq : s.request? i m = some q) :
    m.context.heap.Grows q.heap ∧ q.heap.Closed ∧ ∀ v ∈ q.args, v.Within q.heap := by
  obtain ⟨-, hcontrol, call, hcall, hrequest⟩ := request?_eq_some hq
  obtain ⟨name, args, c, -, hsend, rfl⟩ := Call.request?_eq_some hrequest
  have hvisit : m.context.Leads (visit i m).context := hm.unchanged rfl rfl rfl rfl
  have hhandler : Handler.decoder m.context.heap .call i.config.get? = .valid (.call call) := by
    simp only [Handler.decoder, Decoder.map_apply, hcall]
    rfl
  have hleads := hvisit.closed.send call (List.forall_mem_map.1 (hi.values hm.heap hhandler))
  rw [hsend] at hleads
  exact ⟨hleads.1.grows, hleads.1.closed.heap, hleads.2⟩

/-- A run whose context and instructions mention only what its heap holds, in which all is still
there that was in the heap at the start. -/
structure Activation.Closed (origin : Heap) (a : Activation) : Prop where
  grows : origin.Grows a.machine.context.heap
  context : a.machine.context.Closed
  instructions : ∀ i ∈ a.instructions, i.Within a.machine.context.heap

namespace Activation.Closed

variable {origin : Heap}

theorem instruction? (ha : a.Closed origin) (hi : a.instruction? = some i) :
    i.Within a.machine.context.heap := by
  obtain ⟨given, hmem, -, hconfig⟩ := Store.mem_of_getElem? hi
  intro e he
  exact ha.instructions given hmem e (hconfig ▸ he)

theorem leads_step (ha : a.Closed origin) (hi : a.instruction? = some i) (settings : Settings)
    (run : Library.Runner)
    (hanswer : ∀ q, (a.setup settings Library.unanswered).request? i a.machine = some q →
      q.Keeps (q.answer run)) :
    a.machine.context.Leads ((a.setup settings run).step i a.machine).1.context := by
  have hcaller : (a.setup settings run).caller = Library.asCaller run := rfl
  exact Setup.leads_step hcaller ha.context (ha.instruction? hi) hanswer

theorem leads (ha : a.Closed origin) (hm : a.machine.context.Leads m.context) :
    Activation.Closed origin { a with machine := m } :=
  ⟨ha.grows.trans hm.grows, hm.closed, fun i hi => (ha.instructions i hi).later hm.grows⟩

end Activation.Closed

namespace Library

variable {origin : Heap}

/-- The runs that wait, each for an answer that goes on from the heap it handed over. -/
inductive Waits (l : Library) (origin : Heap) : Heap → List Activation → Prop
  | nil (g : Heap) : Waits l origin g []
  | cons {g : Heap} {a : Activation} {callers : List Activation} (ha : a.Closed origin)
      (hq : ∀ i q, a.instruction? = some i →
        (a.setup l.settings unanswered).request? i a.machine = some q → q.heap.Grows g)
      (hrest : Waits l origin a.machine.context.heap callers) : Waits l origin g (a :: callers)

theorem Waits.later (hw : l.Waits origin h callers) (hg : h.Grows g) :
    l.Waits origin g callers := by
  cases hw with
  | nil => exact .nil g
  | cons ha hq hrest => exact .cons ha (fun i q hi hr => (hq i q hi hr).trans hg) hrest

/-- All runs are closed, and an answer goes on from the heaps of those that wait. -/
def Closed (l : Library) (origin : Heap) : CallState → Prop
  | .running a callers => a.Closed origin ∧ l.Waits origin a.machine.context.heap callers
  | .answering x callers => ∃ g, l.Waits origin g callers ∧
      ∀ r, x = .ok r → g.Grows r.context.heap ∧ r.context.Closed

theorem closed_result (hw : l.Waits origin a.machine.context.heap callers)
    (hm : a.machine.context.Leads m.context) (ending : Ending) :
    l.Closed origin (.answering (.ok (s.result m ending)) callers) := by
  refine ⟨a.machine.context.heap, hw, ?_⟩
  rintro _ ⟨⟩
  have hresult := hm.trans (s.leads_result hm.closed ending)
  exact ⟨hresult.grows, hresult.closed⟩

theorem closed_stepped (ha : a.Closed origin)
    (hw : l.Waits origin a.machine.context.heap callers) {r : Machine × Option Ending}
    (hr : a.machine.context.Leads r.1.context) : l.Closed origin (l.stepped a callers r) := by
  obtain ⟨m, _ | ending⟩ := r
  · exact ⟨ha.leads hr, hw.later hr.grows⟩
  · exact closed_result hw hr ending

theorem closed_activate (key : String) (depth : Nat) {instructions : List Instruction}
    (functionScope : Bool) (room : Nat) (cancelAfter : Option Nat) (parameters : List String)
    {args : List Value} (notices : Array Diagnostic) (hg : origin.Grows h) (hh : h.Closed)
    (hi : ∀ i ∈ instructions, i.Within h) (hargs : ∀ v ∈ args, v.Within h) :
    let a := activate key depth instructions functionScope room cancelAfter parameters args h notices
    a.Closed origin ∧ h.Grows a.machine.context.heap := by
  have hfresh : Context.Closed { Context.fresh h notices with room } :=
    ⟨hh, List.forall_mem_nil _, (fun _ hv => nomatch hv), List.forall_mem_nil _⟩
  have hbound := Context.Closed.bindParameters parameters args hfresh hargs
  exact ⟨⟨hg.trans hbound.grows, hbound.closed, fun i hmem => (hi i hmem).later hbound.grows⟩,
    hbound.grows⟩

/-- A move leads from closed runs to closed runs. -/
theorem closed_move (hl : GraphLookup.Within origin l.lookup) (h : l.move σ = some σ')
    (hσ : l.Closed origin σ) : l.Closed origin σ' := by
  cases σ with
  | running a callers =>
    obtain ⟨ha, hw⟩ := hσ
    obtain rfl := Option.some.inj h
    unfold advance
    dsimp only
    cases hi : a.instruction? with
    | none => exact closed_result hw ha.context.refl _
    | some i =>
      have hwithin := ha.instruction? hi
      dsimp only
      split
      · exact closed_result hw ha.context.refl _
      · cases hq : (a.setup l.settings unanswered).request? i a.machine with
        | none =>
          refine closed_stepped ha hw (ha.leads_step hi l.settings unanswered fun q hq' => ?_)
          simp [hq] at hq'
        | some q =>
          obtain ⟨hgrows, hheap, hargs⟩ := Setup.within_of_request? ha.context hwithin hq
          have hwaits {g : Heap} (hg : q.heap.Grows g) : l.Waits origin g (a :: callers) := by
            refine .cons ha (fun i' q' hi' hq' => ?_) hw
            obtain rfl := Option.some.inj (hi.symm.trans hi')
            obtain rfl := Option.some.inj (hq.symm.trans hq')
            exact hg
          dsimp only
          cases hbegin : l.begin? a.depth q with
          | error f => exact ⟨q.heap, hwaits (.refl _), fun _ hr => nomatch hr⟩
          | ok callee =>
            obtain ⟨-, graph, hresolve, rfl⟩ := begin?_eq_ok hbegin
            have horigin := ha.grows.trans hgrows
            obtain ⟨hcallee, hbound⟩ := closed_activate q.key (a.depth + 1) true
              (q.room - callLevels) none (graph.parameters.getD []) q.notices horigin hheap
              (within_of_resolve hl horigin hheap hresolve) hargs
            exact ⟨hcallee, hwaits hbound⟩
  | answering x callers =>
    cases callers with
    | nil => simp [move] at h
    | cons a callers =>
      obtain ⟨g, hw, hx⟩ := hσ
      obtain ⟨i, hi, h⟩ := Option.bind_eq_some_iff.1 h
      obtain rfl := Option.some.inj h
      cases hw with
      | cons ha hq hrest =>
        refine closed_stepped ha hrest
          (ha.leads_step hi l.settings (fun _ _ _ _ _ => x) fun q hrequest r hr => ?_)
        obtain ⟨hg, hclosed⟩ := hx r hr
        exact ⟨(hq i q hi hrequest).trans hg, hclosed⟩

/-! ### Leaves -/

/-- Wherever a run, or a run that it calls, comes to a leaf, the leaf ends in a record or in nothing,
and the run goes on behind it, whatever its configuration says and whatever the variables hold; unless
a limit of evaluation is exceeded by a value of the configuration, of a variable or of a table among
these, or by what such a text means, or the text has no bytes since half of a pair is in it. -/
theorem leaf_fails_only_beyond_limits (l : Library) (key : String) (instructions : List Instruction)
    (functionScope : Bool) (cancelAfter : Option Nat) (parameters : List String) (args : List Value)
    {heap : Heap} (notices : Array Diagnostic) (hheap : heap.Closed)
    (hlookup : GraphLookup.Within heap l.lookup) (hinstructions : ∀ i ∈ instructions, i.Within heap)
    (hargs : ∀ v ∈ args, v.Within heap) {n : Nat} {kind : LeafKind}
    (hmoves : l.Moves n
      (opening key instructions functionScope cancelAfter parameters args heap notices)
      (.running a callers))
    (hi : a.instruction? = some i) (hk : LeafKind.ofTag? i.tag = some kind) :
    let s := a.setup l.settings unanswered
    let c := (Setup.visit i a.machine).context
    (∃ reply c', i.evaluate s.settings.functionPrefix s.caller c = .ok reply c' ∧
      (reply = .nothing ∨ ∃ r, reply = .record r) ∧
      s.perform a.machine.pc i c = .ok (a.machine.pc + 1) (Setup.logged i reply c')) ∨
    ∃ f c', i.evaluate s.settings.functionPrefix s.caller c = .error f c' ∧
      Exceeded c.room (c.InPlay i) f := by
  intro s c
  have hopening : l.Closed heap
      (opening key instructions functionScope cancelAfter parameters args heap notices) :=
    ⟨(closed_activate key 0 functionScope nestingLimit cancelAfter parameters notices (.refl heap)
      hheap hinstructions hargs).1, .nil _⟩
  have ha : a.Closed heap := (hmoves.keeps (fun _ _ => closed_move hlookup) hopening).1
  have hc : a.machine.context.Leads c := ha.context.unchanged rfl rfl rfl rfl
  have hcontrol : i.control = none := (HandlerKind.ofTag?_leaf hk).1
  have hleaf := hc.closed.evaluate_leaf (ha.instruction? hi) hk s.settings.functionPrefix s.caller
  have hperform := s.perform_apply a.machine.pc i c
  rw [hcontrol] at hperform
  generalize i.evaluate s.settings.functionPrefix s.caller c = r at hleaf hperform
  cases r with
  | ok reply c' => exact .inl ⟨reply, c', rfl, hleaf.2, hperform⟩
  | error f c' => exact .inr ⟨f, c', rfl, hleaf.2⟩

end Library

/-- Makes an array. -/
def creating : Instruction where
  tag := "createTable"
  config := .ofList [("variableName", .text "t"), ("tableType", .text "array")]

/-- Writes under a key of a table. -/
def writing (key : Value) : Instruction where
  tag := "setTableValue"
  config := .ofList [("tableVariable", .text "t"), ("keyType", .text "number_literal"),
    ("keyValue", key), ("valueSource", .text "1")]

/-- Whether an evaluation ends in a record. -/
def isRecorded : EStateM.Result Fault Context Reply → Bool
  | .ok (.record _) _ => true
  | _ => false

/-- An array that contains itself. -/
def selfContaining : Heap := { tables := #[.array [.table 0]] }

/-- Writing to an array that contains itself, under a key that is out of range, is refused with a
record. -/
theorem writing_selfContaining_refused :
    selfContaining.Closed ∧ (writing (.int 7)).Within selfContaining ∧
      ∃ a i r c', Library.opening "main" [writing (.int 7)] true none ["t"] [.table 0] selfContaining
          #[] = .running a [] ∧ a.instruction? = some i ∧
        (a.setup {} Library.unanswered).perform a.machine.pc i (Setup.visit i a.machine).context =
          .ok (a.machine.pc + 1) (Setup.logged i (.record r) c') := by
  have hclosed : selfContaining.Closed := ⟨by decide, by decide⟩
  have hwithin : (writing (.int 7)).Within selfContaining := by decide
  obtain ⟨a, hopening, hrecord⟩ : ∃ a, Library.opening "main" [writing (.int 7)] true none ["t"]
        [.table 0] selfContaining #[] = .running a [] ∧
      ∃ i ∈ a.instruction?, LeafKind.ofTag? i.tag = some .setTableValue ∧
        isRecorded (i.evaluate (a.setup {} Library.unanswered).settings.functionPrefix
          (a.setup {} Library.unanswered).caller (Setup.visit i a.machine).context) = true :=
    ⟨_, rfl, _, rfl, by decide +kernel⟩
  obtain ⟨i, hi, hkind, hok⟩ := hrecord
  refine ⟨hclosed, hwithin, a, i, ?_⟩
  obtain ⟨reply, c', hr, -, hperform⟩ | ⟨f, c', hr, -⟩ :=
    Library.leaf_fails_only_beyond_limits ⟨none, {}⟩ "main" [writing (.int 7)] true none ["t"]
      [.table 0] #[] hclosed .none (List.forall_mem_singleton.2 hwithin) (by decide)
      (by rw [hopening]; exact .refl _) hi hkind
  · rw [hr] at hok
    cases reply with
    | record r => exact ⟨r, c', hopening, hi, hperform⟩
    | nothing | truth | entry => cases hok
  · rw [hr] at hok
    cases hok

/-- A key of an array that is out of range is refused with a record; one beyond the doubles fails the
run. -/
theorem writing_far_fails :
    let run := fun key => (Library.setup ⟨none, {}⟩ [creating, writing key] false).run [] [] {} #[]
    (run (.int 7)).success = true ∧ (run (.int (10 ^ 400))).success = false ∧
      (run (.int (10 ^ 400))).errors.map (fun d => (d.kind, d.index)) =
        [(.handlerFault, some 1)] := by
  decide +kernel

end NodeScript
