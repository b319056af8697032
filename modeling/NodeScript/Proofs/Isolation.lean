import NodeScript.Proofs.Appending
import NodeScript.Proofs.Closed.Contexts
import NodeScript.Proofs.Containment
import NodeScript.Proofs.Notices

/-!
Callers and what they call are isolated from each other. A call leaves its caller as it was, but for
the result variable and what is added to the log and the reports; and what it comes to depends on
nothing of its caller but the arguments and the tables.
-/

namespace NodeScript

variable {s : Setup} {run : Library.Runner} {i : Instruction} {m m₁ m₂ : Machine}
  {c c' c₁ c₂ : Context} {call : Call} {start name : String} {v : Value}

/-! ### Variables -/

namespace Dict

variable {κ α : Type} [BEq κ] [LawfulBEq κ]

theorem find?_put_of_ne {k j : κ} (h : j ≠ k) (v : α) (entries : List (κ × α)) :
    (put k v entries).find? (·.1 == j) = entries.find? (·.1 == j) := by
  induction entries with
  | nil => simp [put, Ne.symm h]
  | cons e entries ih =>
    obtain ⟨l, w⟩ := e
    by_cases hl : l = k
    · subst hl
      simp [put, Ne.symm h]
    · by_cases hj : l = j
      · subst hj
        simp [put, hl]
      · simp [put, hl, hj, ih]

/-- Inserting under a key keeps what stands under the others. -/
theorem get?_insert_of_ne {k j : κ} (h : j ≠ k) (v : α) (d : Dict κ α) :
    (d.insert k v).get? j = d.get? j := by
  rw [get?, get?, insert, find?_put_of_ne h]

end Dict

/-! ### Arguments -/

/-- Two evaluations in different scopes both give values, or both fail alike, with the same heap. -/
inductive Eval.Paired {α : Type} :
    EStateM.Result Fault Draft α → EStateM.Result Fault Draft α → Prop
  | ok (a a' : α) {d d' : Draft} (hheap : d'.heap = d.heap) (hroom : d'.room = d.room) :
      Paired (.ok a d) (.ok a' d')
  | error (f : Fault) {d d' : Draft} (hheap : d'.heap = d.heap) : Paired (.error f d) (.error f d')

namespace Source

theorem resolve_paired (source : Source) (scope scope' : Scope) {d d' : Draft}
    (hheap : d'.heap = d.heap) (hroom : d'.room = d.room) :
    Eval.Paired (source.resolve scope d) (source.resolve scope' d') := by
  obtain ⟨kind, value⟩ := source
  cases kind with
  | literal =>
    change Eval.Paired (Eval.literal value d) (Eval.literal value d')
    rw [Eval.literal_apply, Eval.literal_apply, hheap, hroom]
    cases d.heap.literal d.room value with
    | ok r => exact .ok _ _ rfl rfl
    | error f => exact .error f hheap
  | _ => cases value <;> exact .ok _ _ hheap hroom

/-- Which variables there are has no influence on the tables that the arguments make. -/
theorem resolveAll_paired (sources : List Source) (scope scope' : Scope) {d d' : Draft}
    (hheap : d'.heap = d.heap) (hroom : d'.room = d.room) :
    Eval.Paired (resolveAll scope sources d) (resolveAll scope' sources d') := by
  induction sources generalizing d d' with
  | nil => exact .ok [] [] hheap hroom
  | cons source sources ih =>
    have hfirst := source.resolve_paired scope scope' hheap hroom
    simp only [resolveAll, bind, EStateM.bind]
    generalize source.resolve scope d = r, source.resolve scope' d' = r' at hfirst
    cases hfirst with
    | error f hheap => exact .error f hheap
    | ok v v' hheap hroom =>
      have hrest := ih hheap hroom
      dsimp only
      rename_i d d'
      generalize resolveAll scope sources d = r, resolveAll scope' sources d' = r' at hrest
      cases hrest with
      | error f hheap => exact .error f hheap
      | ok vs vs' hheap hroom => exact .ok _ _ hheap hroom

end Source

/-- The outcome of an evaluation brings its heap along. -/
theorem Context.heap_adopt (c : Context) (d : Draft) : (c.adopt d).heap = d.heap := by
  rw [adopt, ← Array.foldl_toList]
  have hheap : ({ c with heap := d.heap } : Context).heap = d.heap := rfl
  generalize { c with heap := d.heap } = c' at hheap
  induction d.warnings.toList generalizing c' with
  | nil => exact hheap
  | cons w ws ih => exact ih _ hheap

namespace Call

/-- What the arguments of a call come to. -/
def sent (call : Call) (c : Context) : Except Fault (List Value) :=
  match call.send c with
  | .ok args _ => .ok args
  | .error f _ => .error f

/-- The arguments of a call as two callers send them: they fail alike, or they are sent with the same
tables behind them. -/
inductive Sends (call : Call) (c₁ c₂ : Context) : Prop
  | fails (f : Fault) (d₁ d₂ : Context) (h₁ : call.send c₁ = .error f d₁)
      (h₂ : call.send c₂ = .error f d₂) (he₁ : c₁.Evaluated d₁) (he₂ : c₂.Evaluated d₂)
      (hheap : d₂.heap = d₁.heap)
  | sends (args : List Value) (d₁ d₂ : Context) (h₁ : call.send c₁ = .ok args d₁)
      (h₂ : call.send c₂ = .ok args d₂) (he₁ : c₁.Evaluated d₁) (he₂ : c₂.Evaluated d₂)
      (hheap : d₂.heap = d₁.heap)

/-- Where the caller stands has no influence on the arguments. -/
theorem sent_visit (call : Call) (i : Instruction) (m : Machine) :
    call.sent (Setup.visit i m).context = call.sent m.context := by
  have hresolve (label : Option String) (source : Source) :
      source.resolve ⟨m.context.bindings, label⟩ = source.resolve m.context.scope := by
    obtain ⟨kind, value⟩ := source
    cases kind <;> cases value <;> rfl
  have hresolveAll (sources : List Source) :
      Source.resolveAll (Setup.visit i m).context.scope sources =
        Source.resolveAll m.context.scope sources := by
    induction sources with
    | nil => rfl
    | cons source sources ih =>
      have hfirst := hresolve (some i.displayName) source
      simp only [Source.resolveAll, ih]
      rw [← hfirst]
      rfl
  have hsend (c : Context) := Context.evaluate_apply
    (fun scope => Source.resolveAll scope call.arguments) c
  simp only [sent, send, hsend, hresolveAll]
  have hheap : (Setup.visit i m).context.heap = m.context.heap := rfl
  have hroom : (Setup.visit i m).context.room = m.context.room := rfl
  rw [hheap, hroom]
  cases Source.resolveAll m.context.scope call.arguments
    { heap := m.context.heap, room := m.context.room } <;> rfl

theorem sends_of_sent (hheap : c₂.heap = c₁.heap) (hroom : c₂.room = c₁.room)
    (hsent : call.sent c₂ = call.sent c₁) : call.Sends c₁ c₂ := by
  let d₁ : Draft := { heap := c₁.heap, room := c₁.room }
  let d₂ : Draft := { heap := c₂.heap, room := c₂.room }
  have hdrafts : d₂.heap = d₁.heap ∧ d₂.room = d₁.room := ⟨hheap, hroom⟩
  have hpaired := Source.resolveAll_paired call.arguments c₁.scope c₂.scope hdrafts.1 hdrafts.2
  have hsend (c : Context) := Context.evaluate_apply
    (fun scope => Source.resolveAll scope call.arguments) c
  simp only [sent, send, hsend] at hsent
  generalize hr₁ : Source.resolveAll c₁.scope call.arguments
    { heap := c₁.heap, room := c₁.room } = r₁ at hpaired hsent
  generalize hr₂ : Source.resolveAll c₂.scope call.arguments
    { heap := c₂.heap, room := c₂.room } = r₂ at hpaired hsent
  have hevaluated (c : Context) (d : Draft) : c.Evaluated ({ c with heap := {} }.adopt d) :=
    Context.evaluated_adopt { c with heap := {} } d
  cases hpaired with
  | error f hd =>
    exact .fails f _ _ (by rw [send, hsend, hr₁]) (by rw [send, hsend, hr₂]) (hevaluated _ _) (hevaluated _ _)
      (by rw [Context.heap_adopt, Context.heap_adopt, hd])
  | ok args args' hd =>
    obtain rfl : args' = args := Except.ok.inj hsent
    exact .sends args' _ _ (by rw [send, hsend, hr₁]) (by rw [send, hsend, hr₂]) (hevaluated _ _)
      (hevaluated _ _) (by rw [Context.heap_adopt, Context.heap_adopt, hd])

/-! ### Calls of two callers -/

/-- What a call changes in the variables and the log of its caller: at most the result variable, and
what is added. -/
structure Changes (call : Call) (bound : Option Value) (entries : List Record) (c c' : Context) :
    Prop where
  bindings : c'.bindings = bound.elim c.bindings (c.bindings.insert call.result)
  results : c'.results.toList = c.results.toList ++ entries.map .record

theorem Changes.of_evaluated (h : c.Evaluated c') : call.Changes none [] c c' := by
  constructor
  · rw [h]
    rfl
  · rw [h]
    simp

/-- A call comes to the same for two callers. -/
inductive Agrees (call : Call) (c₁ c₂ : Context) :
    EStateM.Result Fault Context Record → EStateM.Result Fault Context Record → Prop
  | ok (output : Record) (bound : Option Value) (entries : List Record) {d₁ d₂ : Context}
      (h₁ : call.Changes bound entries c₁ d₁) (h₂ : call.Changes bound entries c₂ d₂)
      (hheap : d₂.heap = d₁.heap) (hbound : Text.isScriptName call.result → bound.isSome) :
      Agrees call c₁ c₂ (.ok output d₁) (.ok output d₂)
  | error (f : Fault) {d₁ d₂ : Context} (h₁ : call.Changes none [] c₁ d₁)
      (h₂ : call.Changes none [] c₂ d₂) (hheap : d₂.heap = d₁.heap) :
      Agrees call c₁ c₂ (.error f d₁) (.error f d₂)

theorem changes_setResult (hc : c.Evaluated c') (o : Outcome) (x : Except Fault RunResult) :
    call.Changes (if Text.isScriptName call.result then some o.value else none) o.problem c
      (setResult call.result o.value (afterwards o x c')) := by
  have hleaves := call.leaves_afterwards hc o x
  refine ⟨?_, hleaves.results⟩
  by_cases hname : Text.isScriptName call.result = true
  · rw [if_pos hname]
    exact hleaves.bound hname
  · have hkept : c'.bindings = c.bindings := by rw [hc]
    rw [if_neg hname, setResult, if_neg hname]
    unfold afterwards
    rw [addRecords_eq]
    cases x <;> exact hkept

theorem heap_setResult (o : Outcome) (x : Except Fault RunResult) (c : Context) :
    (setResult call.result o.value (afterwards o x c)).heap =
      match x with
      | .ok r => r.context.heap
      | .error _ => c.heap := by
  have hset (d : Context) : (setResult call.result o.value d).heap = d.heap := by
    unfold setResult Context.setVariable
    split
    · split <;> rfl
    · rfl
  rw [hset]
  unfold afterwards
  rw [addRecords_eq]
  cases x <;> rfl

/-- What comes of a called graph does not depend on what its host has been told before. -/
theorem outcome_of_heard {x₁ x₂ : Except Fault RunResult} (h : Heard AnyNotices x₁ x₂)
    (label : Option String) (name key : String) :
    outcome label name key x₂ = outcome label name key x₁ := by
  cases h <;> rfl

/-- A fault that is not contained leaves the caller as it is. -/
theorem invoke_of_escapes {key : String} {args : List Value} {f : Fault}
    (hx : run c.room key args c.heap c.notices = .error f) (hf : isContained f = false) :
    invoke (Library.asCaller run) name key args c = .error f c := by
  simp [invoke, Library.asCaller, hx, hf]

/-- A call comes to the same for two callers that have the same tables and send the same
arguments. -/
theorem run_agrees (hrun : run.Hears AnyNotices) (hheap : c₂.heap = c₁.heap)
    (hroom : c₂.room = c₁.room) (hlabel : c₂.label = c₁.label)
    (hsent : call.sent c₂ = call.sent c₁) :
    call.Agrees c₁ c₂ (call.run start (Library.asCaller run) c₁)
      (call.run start (Library.asCaller run) c₂) := by
  cases hname : givenName? call.functionName with
  | none =>
    have hset (c : Context) : c.setVariable call.result .nil = c.bind call.result .nil :=
      if_neg call.result_ne_empty
    have hchanges (c : Context) : call.Changes (some .nil) [] c
        ((c.setVariable call.result .nil).warn "Call Function: no valid function name selected.") := by
      rw [hset]
      exact ⟨rfl, by simp [Context.warn, Context.report, Context.bind]⟩
    rw [run_nameless hname, run_nameless hname]
    refine .ok _ (some .nil) [] (hchanges c₁) (hchanges c₂) ?_ fun _ => rfl
    rw [hset, hset]
    exact hheap
  | some name =>
    rw [run_named hname, run_named hname]
    cases sends_of_sent hheap hroom hsent with
    | fails f d₁ d₂ h₁ h₂ he₁ he₂ hd =>
      rw [h₁, h₂]
      exact .error f (.of_evaluated he₁) (.of_evaluated he₂) hd
    | sends args d₁ d₂ h₁ h₂ he₁ he₂ hd =>
      rw [h₁, h₂]
      have hroom' : d₂.room = d₁.room := by rw [he₁, he₂]; exact hroom
      have hlabel' : d₂.label = d₁.label := by rw [he₁, he₂]; exact hlabel
      have hheard := hrun d₁.room (functionKey start name) args d₁.heap d₁.notices d₂.notices
        trivial
      generalize hx₁ : run d₁.room (functionKey start name) args d₁.heap d₁.notices = x₁ at hheard
      generalize hx₂ : run d₁.room (functionKey start name) args d₁.heap d₂.notices = x₂ at hheard
      rw [← hroom', ← hd] at hx₂
      dsimp only
      by_cases hesc : ∃ f, x₁ = .error f ∧ isContained f = false
      · obtain ⟨f, rfl, hf⟩ := hesc
        cases hheard
        rw [invoke_of_escapes hx₁ hf, invoke_of_escapes hx₂ hf]
        exact .error f (.of_evaluated he₁) (.of_evaluated he₂) hd
      · have hesc₂ : ¬ Escapes x₂ := by
          rintro ⟨f, rfl, hf⟩
          cases hheard
          exact hesc ⟨f, rfl, hf⟩
        rw [invoke_contained name (hx₁ ▸ hesc), invoke_contained name (hx₂ ▸ hesc₂), hx₁, hx₂,
          hlabel']
        dsimp only
        rw [outcome_of_heard hheard]
        refine .ok _ _ _ (changes_setResult he₁ _ _) (changes_setResult he₂ _ _) ?_ ?_
        · rw [heap_setResult, heap_setResult]
          cases hheard
          · exact hd
          · rfl
        · intro hname
          simp [hname]

end Call

/-! ### Steps at a call -/

namespace Instruction

/-- The variable that a call sets, if its configuration is accepted. -/
def resultVariable? (i : Instruction) (h : Heap) : Option String :=
  match Call.decoder h i.config.get? with
  | .valid call => some call.result
  | .invalid _ => none

/-- What the arguments of a call come to, if its configuration is accepted. -/
def sent? (i : Instruction) (c : Context) : Option (Except Fault (List Value)) :=
  match Call.decoder c.heap i.config.get? with
  | .valid call => some (call.sent c)
  | .invalid _ => none

/-- The entry about a configuration that is refused. -/
def refusalRecord (i : Instruction) (problems : List Problem) : Record :=
  [("node", .text i.displayName), ("status", .text "error"),
   ("message", .text (i.configMessage problems))]

/-- The variables of a caller once a result is bound, if there is a variable and a value for it. -/
def bound (name : Option String) (v : Option Value) (bindings : Dict String Value) :
    Dict String Value :=
  match name, v with
  | some name, some v => bindings.insert name v
  | _, _ => bindings

/-- What a call leaves of its caller: all of it, but that the result variable may be bound and that
entries and reports are added. -/
structure Isolates (i : Instruction) (v : Option Value) (entries : List Record)
    (c c' : Context) : Prop where
  bindings : c'.bindings = bound (i.resultVariable? c.heap) v c.bindings
  results : c'.results.toList = c.results.toList ++ entries.map .record
  diagnostics : c.diagnostics.toList <+: c'.diagnostics.toList
  loops : c'.loops = c.loops
  breakRequested : c'.breakRequested = c.breakRequested
  returned : c'.returned = c.returned

theorem Isolates.get?_eq {v : Option Value} {entries : List Record}
    (h : i.Isolates v entries c c') (hname : i.resultVariable? c.heap ≠ some name) :
    c'.bindings.get? name = c.bindings.get? name := by
  rw [h.bindings]
  cases hresult : i.resultVariable? c.heap with
  | none => rfl
  | some other =>
    cases v with
    | none => rfl
    | some v => exact Dict.get?_insert_of_ne (fun heq => hname (by rw [hresult, heq])) v _

end Instruction

namespace Setup

section Step

variable (hs : s.caller = Library.asCaller run) (hi : i.control = some .call)

include hi in
/-- Performing a call goes behind it, unless its evaluation fails. -/
theorem perform_call (pc : Nat) (c : Context) :
    s.perform pc i c =
      match i.evaluate s.settings.functionPrefix s.caller c with
      | .error f c' => .error f c'
      | .ok reply c' => .ok (pc + 1) (logged i reply c') := by
  rw [perform_apply, hi]
  rfl

include hi in
/-- A call whose configuration is refused is passed by, with an entry about it. -/
theorem step_refused {problems : List Problem} (hready : s.Ready m)
    (hcall : Call.decoder m.context.heap i.config.get? = .invalid problems) :
    s.step i m =
      ({ visit i m with
         context := ((visit i m).context.warn (i.configMessage problems)).addRecord
           (i.refusalRecord problems)
         pc := m.pc + 1 }, none) := by
  have hevaluate := Instruction.evaluate_of_control hi rfl s.settings.functionPrefix s.caller
    (visit i m).context
  have hcall' : Call.decoder (visit i m).context.heap i.config.get? = .invalid problems := hcall
  simp only [Handler.decoder, Functor.map, hcall', Checked.map] at hevaluate
  rw [step_ready hready, dispatch, isUnknown_of_control hi]
  simp only [Bool.false_eq_true, if_false, perform_call hi, hevaluate]
  rfl

include hs hi

/-- What every change by a handler keeps, a step at a call keeps. -/
theorem step_call_tolerant {R : Context → Context → Prop} (hR : Tolerant R)
    (hplace : ∀ position label c, R c { c with position, label })
    (hreport : ∀ d c, R c (Context.report d c)) (hready : s.Ready m) :
    R m.context (s.step i m).1.context := by
  have hevaluate := hR.instruction (i := i) (by simp [hi]) (by simp [hi])
    s.settings.functionPrefix run (visit i m).context
  rw [step_ready hready, dispatch, isUnknown_of_control hi]
  simp only [Bool.false_eq_true, if_false, perform_call hi, hs]
  have hvisit : R m.context (visit i m).context := hplace _ _ m.context
  rw [Exec.after] at hevaluate
  refine hR.trans hvisit ?_
  generalize i.evaluate s.settings.functionPrefix (Library.asCaller run) (visit i m).context = r
    at hevaluate
  cases r with
  | ok reply c' => exact hR.trans hevaluate (logged_tolerant hR i reply c')
  | error f c' => exact hR.trans hevaluate (hreport _ c')

theorem isolates_of_step {v : Option Value} {entries : List Record} (hready : s.Ready m)
    (hbindings : (s.step i m).1.context.bindings =
      Instruction.bound (i.resultVariable? m.context.heap) v m.context.bindings)
    (hresults : (s.step i m).1.context.results.toList =
      m.context.results.toList ++ entries.map .record) :
    i.Isolates v entries m.context (s.step i m).1.context where
  bindings := hbindings
  results := hresults
  diagnostics := (step_call_tolerant hs hi enduring_continues.toTolerant enduring_continues.place
    (fun d c => Context.continues_report d c) hready).diagnostics
  loops := step_call_tolerant hs hi tolerant_loops (fun _ _ _ => rfl) (fun _ _ => rfl) hready
  breakRequested := step_call_tolerant hs hi tolerant_breakRequested (fun _ _ _ => rfl)
    (fun _ _ => rfl) hready
  returned := step_call_tolerant hs hi tolerant_returned (fun _ _ _ => rfl) (fun _ _ => rfl) hready

end Step

/-- A step at a call comes to the same for two callers: it ends or goes on alike and leaves the same
tables, it binds the same value, and it adds the same entries to the log. -/
structure CallsAlike (s : Setup) (i : Instruction) (m₁ m₂ : Machine) : Prop where
  ending : (s.step i m₂).2 = (s.step i m₁).2
  heap : (s.step i m₂).1.context.heap = (s.step i m₁).1.context.heap
  changes : ∃ bound entries, i.Isolates bound entries m₁.context (s.step i m₁).1.context ∧
    i.Isolates bound entries m₂.context (s.step i m₂).1.context ∧
    ((s.step i m₁).2 = none → ∀ name, i.resultVariable? m₁.context.heap = some name →
      Text.isScriptName name → bound.isSome)

section Callers

variable (hs : s.caller = Library.asCaller run) (hi : i.control = some .call)
  (h₁ : s.Ready m₁) (h₂ : s.Ready m₂) (hheap : m₂.context.heap = m₁.context.heap)

include hs hi h₁ h₂ hheap

theorem callsAlike_of_refused {problems : List Problem}
    (hcall : Call.decoder m₁.context.heap i.config.get? = .invalid problems) :
    s.CallsAlike i m₁ m₂ := by
  have hstep₁ := step_refused hi h₁ hcall
  have hstep₂ := step_refused hi h₂ (hheap ▸ hcall)
  have hnone₁ : i.resultVariable? m₁.context.heap = none := by
    simp only [Instruction.resultVariable?, hcall]
  have hnone₂ : i.resultVariable? m₂.context.heap = none := by rw [hheap, hnone₁]
  refine ⟨by rw [hstep₁, hstep₂], by rw [hstep₁, hstep₂]; exact hheap, none,
    [i.refusalRecord problems], isolates_of_step hs hi h₁ ?_ ?_, isolates_of_step hs hi h₂ ?_ ?_, ?_⟩
  · rw [hstep₁, hnone₁]
    rfl
  · rw [hstep₁]
    exact Array.toList_push
  · rw [hstep₂, hnone₂]
    rfl
  · rw [hstep₂]
    exact Array.toList_push
  · intro _ name hname
    simp [hnone₁] at hname

theorem callsAlike_of_accepted (hrun : run.Hears AnyNotices)
    (hcall : Call.decoder m₁.context.heap i.config.get? = .valid call)
    (hroom : m₂.context.room = m₁.context.room) (hsent : call.sent m₂.context = call.sent m₁.context) :
    s.CallsAlike i m₁ m₂ := by
  have hstep₁ := step_call h₁ hi hcall
  have hstep₂ := step_call h₂ hi (hheap ▸ hcall)
  have hresult₁ : i.resultVariable? m₁.context.heap = some call.result := by
    simp only [Instruction.resultVariable?, hcall]
  have hresult₂ : i.resultVariable? m₂.context.heap = some call.result := by rw [hheap, hresult₁]
  have hsent' : call.sent (visit i m₂).context = call.sent (visit i m₁).context := by
    rw [Call.sent_visit, Call.sent_visit, hsent]
  have hagrees : call.Agrees (visit i m₁).context (visit i m₂).context
      (call.run s.settings.functionPrefix (Library.asCaller run) (visit i m₁).context)
      (call.run s.settings.functionPrefix (Library.asCaller run) (visit i m₂).context) :=
    Call.run_agrees hrun hheap hroom rfl hsent'
  rw [hs] at hstep₁ hstep₂
  generalize call.run s.settings.functionPrefix (Library.asCaller run) (visit i m₁).context = r₁,
    call.run s.settings.functionPrefix (Library.asCaller run) (visit i m₂).context = r₂
    at hagrees hstep₁ hstep₂
  cases hagrees with
  | error f hc₁ hc₂ hd =>
    refine ⟨by rw [hstep₁, hstep₂], by rw [hstep₁, hstep₂]; exact hd, none, [],
      isolates_of_step hs hi h₁ ?_ ?_, isolates_of_step hs hi h₂ ?_ ?_, by simp [hstep₁]⟩
    · rw [hstep₁, hresult₁]
      exact hc₁.bindings
    · rw [hstep₁]
      exact hc₁.results
    · rw [hstep₂, hresult₂]
      exact hc₂.bindings
    · rw [hstep₂]
      exact hc₂.results
  | ok output bound entries hc₁ hc₂ hd hbound =>
    have hlogged {m : Machine} {d : Context}
        (hd : call.Changes bound entries (visit i m).context d) :
        (logged i (.record output) d).results.toList = m.context.results.toList ++
          (entries ++ [resultRecord i output]).map .record := by
      have hresults := hd.results
      simp only [logged, Context.addRecord, Context.addEntry, Array.toList_push, hresults]
      simp [visit]
    have hbindings {m : Machine} {d : Context}
        (hd : call.Changes bound entries (visit i m).context d) :
        (logged i (.record output) d).bindings =
          Instruction.bound (some call.result) bound m.context.bindings := by
      refine hd.bindings.trans ?_
      cases bound <;> rfl
    refine ⟨by rw [hstep₁, hstep₂], by rw [hstep₁, hstep₂]; exact hd, bound,
      entries ++ [resultRecord i output], isolates_of_step hs hi h₁ ?_ ?_,
      isolates_of_step hs hi h₂ ?_ ?_, ?_⟩
    · rw [hstep₁, hresult₁]
      exact hbindings hc₁
    · rw [hstep₁]
      exact hlogged hc₁
    · rw [hstep₂, hresult₂]
      exact hbindings hc₂
    · rw [hstep₂]
      exact hlogged hc₂
    · rintro - name hname hvalid
      obtain rfl : call.result = name := by simpa [hresult₁] using hname
      exact hbound hvalid

end Callers

/-- Callers and what they call are isolated. However a call goes, and however deep the called graph
calls others, it leaves the variables of its caller as they are, all but the result variable, and so
the loops, a pending break and the return slot; what the log and the reports held is the beginning
of what they hold then. And to two callers of the same tables, which send the same arguments, a call
comes to the same: it binds the same result and adds the same entries to the log, whatever other
variables the callers have. -/
theorem calls_isolated (l : Library) (depth : Nat) {s : Setup} (hs : s.caller = l.caller depth)
    {i : Instruction} (hi : i.control = some .call) :
    (∀ m, s.Ready m →
      (∃ bound entries, i.Isolates bound entries m.context (s.step i m).1.context) ∧
      ∀ name, i.resultVariable? m.context.heap ≠ some name →
        (s.step i m).1.context.bindings.get? name = m.context.bindings.get? name) ∧
    ∀ m₁ m₂, s.Ready m₁ → s.Ready m₂ → m₂.context.heap = m₁.context.heap →
      m₂.context.room = m₁.context.room → i.sent? m₂.context = i.sent? m₁.context →
      s.CallsAlike i m₁ m₂ := by
  have halike : ∀ m₁ m₂, s.Ready m₁ → s.Ready m₂ → m₂.context.heap = m₁.context.heap →
      m₂.context.room = m₁.context.room → i.sent? m₂.context = i.sent? m₁.context →
      s.CallsAlike i m₁ m₂ := by
    intro m₁ m₂ h₁ h₂ hheap hroom hsent
    cases hcall : Call.decoder m₁.context.heap i.config.get? with
    | invalid problems => exact callsAlike_of_refused hs hi h₁ h₂ hheap hcall
    | valid call =>
      simp only [Instruction.sent?, hheap, hcall, Option.some.injEq] at hsent
      exact callsAlike_of_accepted hs hi h₁ h₂ hheap (l.hears_runFunction depth) hcall hroom hsent
  refine ⟨fun m hready => ?_, halike⟩
  obtain ⟨bound, entries, hisolates, -⟩ := (halike m m hready hready rfl rfl rfl).changes
  exact ⟨⟨bound, entries, hisolates⟩, fun name hname => hisolates.get?_eq hname⟩

/-- A node that returns seven. -/
def returning : Tree := .object [("id", .text "return"), ("returnValue", .text "7")]

/-- The caller of `f` with a variable of its own, and with a word in its log. -/
def keeping (v : Value) : Machine where
  context := ((callingFStart returning).context.bind "own" v).addEntry (.value (.text "before"))

/-- Whatever a caller keeps in a variable of its own stays there, and the call gives it seven as it
gives it to a caller without one. -/
theorem keeping_isolated :
    callOfF.control = some .call ∧
    (callingF returning).CallsAlike callOfF (callingFStart returning) (keeping (.text "secret")) ∧
    ((callingF returning).step callOfF (callingFStart returning)).1.context.bindings.get? "r" =
      some (.int 7) ∧
    ((callingF returning).step callOfF (keeping (.text "secret"))).1.context.bindings.get? "own" =
      some (.text "secret") := by
  have hi : callOfF.control = some .call := rfl
  have hready : (callingF returning).Ready (keeping (.text "secret")) := ⟨rfl, rfl, rfl⟩
  obtain ⟨hframe, halike⟩ :=
    calls_isolated (oneNodeLibrary returning) 64 (s := callingF returning) rfl hi
  refine ⟨hi, halike _ _ (callingF_ready returning) hready rfl rfl rfl, by decide +kernel, ?_⟩
  exact (hframe _ hready).2 "own" (by decide +kernel)

end Setup

end NodeScript
