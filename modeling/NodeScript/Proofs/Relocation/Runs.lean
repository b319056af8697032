import NodeScript.Library
import NodeScript.Proofs.Relocation.Headers
import NodeScript.Proofs.Steps

/-!
Runs under a relocation. A step from a relocated state reaches the relocated state, and so does a
whole run with all the calls in it. The notices that a host has collected play no part.
-/

namespace NodeScript

variable {ρ : Relocation} {c c' : Context} {α β : Type}

/-! ### Contexts -/

def Entry.move (ρ : Relocation) : Entry → Entry
  | .record r => .record (r.move ρ)
  | .value v => .value (v.move ρ)

structure Context.Moved (ρ : Relocation) (c c' : Context) : Prop where
  heap : c.heap.Moved ρ c'.heap
  bindings : c'.bindings = c.bindings.moveValues ρ
  results : c'.results = c.results.map (Entry.move ρ)
  diagnostics : c'.diagnostics = c.diagnostics
  returned : c'.returned = c.returned.map (Value.move ρ)
  breakRequested : c'.breakRequested = c.breakRequested
  loops : c'.loops = c.loops.move ρ
  position : c'.position = c.position
  label : c'.label = c.label
  room : c'.room = c.room

namespace Context.Moved

theorem scope (hc : c.Moved ρ c') : c'.scope = c.scope.move ρ := by
  simp [Context.scope, Scope.move, hc.bindings, hc.label]

theorem report (hc : c.Moved ρ c') (d : Diagnostic) : (c.report d).Moved ρ (c'.report d) :=
  { hc with diagnostics := by simp [Context.report, hc.diagnostics] }

theorem warn (hc : c.Moved ρ c') (message : String) :
    (c.warn message).Moved ρ (c'.warn message) := by
  have hwarning : c'.warning message = c.warning message := by
    simp [Context.warning, hc.position, hc.label]
  rw [Context.warn, Context.warn, hwarning]
  exact hc.report _

theorem warnAll (hc : c.Moved ρ c') (messages : List String) :
    (messages.foldl (fun c w => c.warn w) c).Moved ρ
      (messages.foldl (fun c w => c.warn w) c') := by
  induction messages generalizing c c' with
  | nil => exact hc
  | cons message messages ih => exact ih (hc.warn message)

theorem addRecord (hc : c.Moved ρ c') (r : Record) :
    (c.addRecord r).Moved ρ (c'.addRecord (r.move ρ)) :=
  { hc with results := by simp [Context.addRecord, Context.addEntry, hc.results, Entry.move] }

/-- A record without values of the heap. -/
theorem addFixed (hc : c.Moved ρ c') {r : Record} (hr : r.move ρ = r) :
    (c.addRecord r).Moved ρ (c'.addRecord r) := by
  have hadd := hc.addRecord r
  rwa [hr] at hadd

theorem bind (hc : c.Moved ρ c') (name : String) (v : Value) :
    (c.bind name v).Moved ρ (c'.bind name (v.move ρ)) :=
  { hc with
    bindings := by
      simp only [Context.bind, hc.bindings]
      exact Dict.insert_mapBoth (fun _ _ => rfl) _ c.bindings name v }

theorem setVariable (hc : c.Moved ρ c') (name : String) (v : Value) :
    (c.setVariable name v).Moved ρ (c'.setVariable name (v.move ρ)) := by
  unfold Context.setVariable
  split
  · exact hc.warn _
  · exact hc.bind name v

theorem setReturn (hc : c.Moved ρ c') (v : Value) :
    (c'.setReturn (v.move ρ)).1 = (c.setReturn v).1 ∧
      (c.setReturn v).2.Moved ρ (c'.setReturn (v.move ρ)).2 := by
  unfold Context.setReturn
  rw [hc.returned]
  cases hr : c.returned with
  | none => exact ⟨rfl, { hc with returned := rfl }⟩
  | some w => exact ⟨rfl, hc.warn _⟩

theorem withHeap (hc : c.Moved ρ c') {h h' : Heap} (hm : h.Moved ρ h') :
    Context.Moved ρ { c with heap := h } { c' with heap := h' } :=
  { hc with heap := hm }

/-- What a step sets before it does anything. -/
theorem place (hc : c.Moved ρ c') (position : Option Int) (label : Option String) :
    Context.Moved ρ { c with position, label } { c' with position, label } :=
  { hc with position := rfl, label := rfl }

theorem unplace (hc : c.Moved ρ c') :
    Context.Moved ρ { c with position := none } { c' with position := none } :=
  { hc with position := rfl }

theorem withLoops (hc : c.Moved ρ c') (loops : LoopStack) :
    Context.Moved ρ { c with loops, breakRequested := false }
      { c' with loops := loops.move ρ, breakRequested := false } :=
  { hc with loops := rfl, breakRequested := rfl }

theorem adopt (hc : c.Moved ρ c') {d d' : Draft} (hd : d.Moved ρ d') :
    (c.adopt d).Moved ρ (c'.adopt d') := by
  unfold Context.adopt
  rw [hd.warnings, ← Array.foldl_toList, ← Array.foldl_toList]
  exact (hc.withHeap hd.heap).warnAll _

theorem commit (hc : c.Moved ρ c') (e : Effect) : (c.commit e).Moved ρ (c'.commit (e.move ρ)) := by
  obtain ⟨binding, write, entry, output⟩ := e
  -- The parts of an effect are carried out one after the other.
  have hentry {c c' : Context} (hc : c.Moved ρ c') :
      (c.commit ⟨none, none, entry, output⟩).Moved ρ
        (c'.commit (Effect.move ρ ⟨none, none, entry, output⟩)) := by
    cases entry with
    | none => exact hc
    | some r => exact hc.addRecord r
  have hwrite {c c' : Context} (hc : c.Moved ρ c') :
      (c.commit ⟨none, write, entry, output⟩).Moved ρ
        (c'.commit (Effect.move ρ ⟨none, write, entry, output⟩)) := by
    cases write with
    | none => exact hentry hc
    | some write => exact hentry (hc.withHeap (hc.heap.set write.1 write.2))
  cases binding with
  | none => exact hwrite hc
  | some binding => exact hwrite (hc.bind binding.1 binding.2)

end Context.Moved

/-! ### Instructions -/

/-- What is done in a relocated context mimics what is done in the context. -/
abbrev Exec.Mimics (ρ : Relocation) (g : α → β) (x : Exec α) (y : Exec β) : Prop :=
  NodeScript.Mimics (Context.Moved ρ) g x y

namespace Exec

theorem mimics_evaluate {g : α → β} {f : Scope → Eval α} {f' : Scope → Eval β}
    (hf : ∀ scope, Eval.Mimics ρ g (f scope) (f' (scope.move ρ))) :
    Exec.Mimics ρ g (evaluate f) (evaluate f') := by
  intro c c' hc
  -- The scope is that of the context while the heap is handed over.
  have hscope : Context.scope { c' with heap := {} } =
      (Context.scope { c with heap := {} }).move ρ := hc.scope
  have hdraft : Draft.Moved ρ { heap := c.heap, room := c.room }
      { heap := c'.heap, room := c'.room } := ⟨hc.heap, hc.room, rfl⟩
  have hr := hf (Context.scope { c with heap := {} }) _ _ hdraft
  rw [← hscope] at hr
  dsimp only [evaluate]
  generalize f _ _ = r, f' _ _ = r' at hr
  cases hr with
  | ok a hd => exact .ok a (hc.adopt hd)
  | error e hd => exact .error e (hc.adopt hd)

theorem mimics_modifyGet {g : α → β} {f : Context → α × Context} {f' : Context → β × Context}
    (hf : ∀ c c', c.Moved ρ c' → (f' c').1 = g (f c).1 ∧ (f c).2.Moved ρ (f' c').2) :
    Exec.Mimics ρ g (modifyGet f) (modifyGet f') := by
  intro c c' hc
  obtain ⟨hvalue, hmoved⟩ := hf c c' hc
  change Image _ g (.ok (f c).1 (f c).2) (.ok (f' c').1 (f' c').2)
  rw [hvalue]
  exact .ok _ hmoved

theorem mimics_lift {g : α → β} {e : Except Fault α} {e' : Except Fault β} (he : e' = e.map g) :
    Exec.Mimics ρ g (lift e) (lift e') := by
  rw [he]
  cases e with
  | ok a => exact .pure rfl
  | error f => exact .throw f

theorem mimics_leaf (l : Leaf) :
    Exec.Mimics ρ (Option.map (Record.move ρ)) (leaf l) (leaf (l.move ρ)) :=
  .bind (mimics_evaluate l.mimics_eval) fun effect =>
    .bindSame (.modify fun _ _ hc => hc.commit effect) fun _ => .pure rfl

end Exec

theorem HeaderOutcome.mimics_apply (o : HeaderOutcome) :
    Exec.Mimics ρ (LoopEntry.move ρ) o.apply (o.move ρ).apply := by
  cases o with
  | skip => exact .pure rfl
  | enter bindings entry =>
    refine .bindSame (.modify fun c c' hc => ?_) fun _ => .pure rfl
    induction bindings generalizing c c' with
    | nil => exact hc
    | cons binding bindings ih => exact ih _ _ (hc.setVariable binding.1 binding.2)
  | refused message =>
    refine .bindSame (.modify fun c c' hc => ?_) fun _ => .pure rfl
    rw [hc.label]
    exact hc.addFixed (by simp)

theorem GiveBack.mimics_run (c : GiveBack) :
    Exec.Mimics ρ (Record.move ρ) c.run (c.move ρ).run := by
  refine .bind (Exec.mimics_evaluate c.mimics_value) fun r => ?_
  refine .bindSame (Exec.mimics_modifyGet fun _ _ hc => hc.setReturn r.1) fun accepted => ?_
  refine .pure ?_
  cases accepted <;> rfl

/-- A caller that mimics another one. -/
def Caller.Mimics (ρ : Relocation) (caller caller' : Caller) : Prop :=
  ∀ key args, Exec.Mimics ρ (Value.move ρ) (caller key args) (caller' key (args.map (Value.move ρ)))

namespace Call

variable {caller caller' : Caller}

theorem mimics_invoke (hcaller : Caller.Mimics ρ caller caller') (name key : String)
    (args : List Value) :
    Exec.Mimics ρ (fun (v, status) => (v.move ρ, status)) (invoke caller name key args)
      (invoke caller' name key (args.map (Value.move ρ))) := by
  intro c c' hc
  have hr := hcaller key args c c' hc
  unfold invoke
  generalize caller key args c = r, caller' key (args.map (Value.move ρ)) c' = r' at hr
  cases hr with
  | ok v hc => exact .ok (v, "success") hc
  | error f hc =>
    dsimp only
    split
    · rw [hc.label]
      exact .ok (Value.nil, "error") (hc.addFixed (by simp))
    · exact .error f hc

theorem moved_setResult (hc : c.Moved ρ c') (name : String) (v : Value) :
    (setResult name v c).Moved ρ (setResult name (v.move ρ) c') := by
  unfold setResult
  split
  · exact hc.setVariable name v
  · exact hc.warn _

theorem mimics_run (hcaller : Caller.Mimics ρ caller caller') (c : Call) (start : String) :
    Exec.Mimics ρ (Record.move ρ) (c.run start caller) ((c.move ρ).run start caller') := by
  have hname : givenName? (c.move ρ).functionName = givenName? c.functionName := rfl
  simp only [run, hname]
  cases givenName? c.functionName with
  | none =>
    exact .bindSame (.modify fun _ _ hc => (hc.setVariable _ .nil).warn _) fun _ => .pure rfl
  | some name =>
    refine .bind (Exec.mimics_evaluate fun scope => Source.mimics_resolveAll scope c.arguments)
      fun args => ?_
    refine .bind (mimics_invoke hcaller name _ args) fun r => ?_
    exact .bindSame (.modify fun _ _ hc => moved_setResult hc _ r.1) fun _ => .pure rfl

end Call

def Reply.move (ρ : Relocation) : Reply → Reply
  | .nothing => .nothing
  | .record r => .record (r.move ρ)
  | .truth b => .truth b
  | .entry e => .entry (e.move ρ)

theorem Handler.mimics_run {caller caller' : Caller} (hcaller : Caller.Mimics ρ caller caller')
    (handler : Handler) (start : String) :
    Exec.Mimics ρ (Reply.move ρ) (handler.run start caller)
      ((handler.move ρ).run start caller') := by
  cases handler with
  | condition c => exact .bindSame (Exec.mimics_evaluate c.mimics_eval) fun _ => .pure rfl
  | numericFor c =>
    exact .bind (Exec.mimics_evaluate c.mimics_eval) fun o =>
      .bind o.mimics_apply fun _ => .pure rfl
  | genericFor c =>
    exact .bind (Exec.mimics_evaluate c.mimics_eval) fun o =>
      .bind o.mimics_apply fun _ => .pure rfl
  | breakLoop =>
    refine .bindSame (.modify fun c c' hc => ?_) fun _ => .pure rfl
    exact { hc with breakRequested := rfl }
  | giveBack c => exact .bind c.mimics_run fun _ => .pure rfl
  | call c => exact .bind (c.mimics_run hcaller start) fun _ => .pure rfl
  | leaf l =>
    refine .bind (Exec.mimics_leaf l) fun output => ?_
    cases output <;> exact .pure rfl

theorem Instruction.mimics_evaluate {caller caller' : Caller}
    (hcaller : Caller.Mimics ρ caller caller') (i : Instruction) (start : String) :
    Exec.Mimics ρ (Reply.move ρ) (i.evaluate start caller)
      ((i.move ρ).evaluate start caller') := by
  simp only [evaluate, tag_move]
  cases HandlerKind.ofTag? i.tag with
  | none => exact .pure rfl
  | some kind =>
    refine .get fun c c' hc => ?_
    have hdecoded : Handler.decoder c'.heap kind (i.move ρ).config.get? =
        (Handler.decoder c.heap kind i.config.get?).map (Handler.move ρ) := by
      have hmoves := (Handler.decoder_moves hc.heap kind).eq i.config.get?
      rwa [← Dict.get?_eq_move] at hmoves
    rw [hdecoded]
    cases Handler.decoder c.heap kind i.config.get? with
    | valid handler => exact handler.mimics_run hcaller start
    | invalid problems =>
      exact .bindSame (.modify fun _ _ hc => (hc.warn _).addFixed (by simp)) fun _ => .pure rfl

/-! ### Control -/

namespace Exec

theorem mimics_expectLoop (kind : LoopKind) (pc : Nat) (terminator : Control) :
    Exec.Mimics ρ (LoopFrame.move ρ) (expectLoop kind pc terminator)
      (expectLoop kind pc terminator) := by
  refine .get fun c c' hc => ?_
  rw [hc.loops, LoopStack.expect_move]
  cases c.loops.expect kind pc terminator.tag with
  | ok frame => exact .pure rfl
  | error e => exact .throw _

theorem mimics_pushLoop (frame : LoopFrame) :
    Exec.Mimics ρ id (pushLoop frame) (pushLoop (frame.move ρ)) :=
  .modify fun c _ hc => { hc with
    loops := by simpa only [hc.loops] using c.loops.pushIfNew_move frame }

theorem mimics_popLoopAt (start : Nat) :
    Exec.Mimics ρ id (popLoopAt start) (popLoopAt start) :=
  .modify fun c _ hc => { hc with
    loops := by simpa only [hc.loops] using c.loops.popIfStart_move start }

theorem mimics_popLoop : Exec.Mimics ρ id popLoop popLoop :=
  .modify fun c _ hc => { hc with
    loops := by simp only [hc.loops, LoopStack.move, List.map_tail] }

theorem mimics_replaceTop (state : LoopState) :
    Exec.Mimics ρ id (replaceTop state) (replaceTop (state.move ρ)) := by
  refine .modify fun c c' hc => ?_
  rw [hc.loops]
  cases hloops : c.loops with
  | nil => exact hc
  | cons top rest => exact { hc with loops := rfl }

end Exec

def Program.move (ρ : Relocation) (p : Program) : Program :=
  { p with instructions := p.instructions.map (Instruction.move ρ) }

namespace Program

variable (p : Program) (pc : Nat)

theorem mimics_blockEnd (kind : BlockKind) (opener : Control) :
    Exec.Mimics ρ id (p.blockEnd kind opener pc) ((p.move ρ).blockEnd kind opener pc) := by
  simp only [blockEnd, move]
  cases Block.endAfter? p.marks kind pc with
  | some index => exact .pure rfl
  | none => exact .throw _

theorem mimics_enterLoop (kind : BlockKind) (state? : Option LoopState) :
    Exec.Mimics ρ id (p.enterLoop kind state? pc)
      ((p.move ρ).enterLoop kind (state?.map (LoopState.move ρ)) pc) := by
  refine .bindSame (p.mimics_blockEnd pc kind kind.opener) fun finish => ?_
  cases state? with
  | some state => exact .bindSame (Exec.mimics_pushLoop ⟨pc, finish, state⟩) fun _ => .pure rfl
  | none => exact .bindSame (Exec.mimics_popLoopAt pc) fun _ => .pure rfl

theorem mimics_endNumericFor : Exec.Mimics ρ id (endNumericFor pc) (endNumericFor pc) := by
  refine .bind (Exec.mimics_expectLoop .numeric pc .endNumericFor) fun frame => ?_
  obtain ⟨start, finish, state⟩ := frame
  cases state with
  | numeric loop =>
    refine .bind (Exec.mimics_lift loop.advance_move) fun loop => ?_
    rw [NumericLoop.inRange_move]
    split
    · refine .bindSame (Exec.mimics_replaceTop (.numeric loop)) fun _ => ?_
      exact .bindSame (.modify fun _ _ hc => hc.setVariable _ (.number loop.current)) fun _ =>
        .pure rfl
    · exact .bindSame Exec.mimics_popLoop fun _ => .pure rfl
  | _ => exact .pure rfl

theorem mimics_endGenericFor : Exec.Mimics ρ id (endGenericFor pc) (endGenericFor pc) := by
  refine .bind (Exec.mimics_expectLoop .generic pc .endGenericFor) fun frame => ?_
  obtain ⟨start, finish, state⟩ := frame
  cases state with
  | generic loop =>
    refine .get fun c c' hc => ?_
    have hadvance := loop.advance_move hc.heap
    dsimp only [LoopFrame.move, LoopState.move]
    rw [hadvance]
    refine .bind (Exec.mimics_lift rfl) fun found => ?_
    cases found with
    | some entry =>
      refine .bindSame (Exec.mimics_replaceTop (.generic (loop.advance c.heap).2)) fun _ => ?_
      exact .bindSame (.modify fun _ _ hc =>
        (hc.setVariable _ entry.1).setVariable _ entry.2) fun _ => .pure rfl
    | none => exact .bindSame Exec.mimics_popLoop fun _ => .pure rfl
  | _ => exact .pure rfl

theorem mimics_next (control : Control) (reply : Reply) :
    Exec.Mimics ρ id (p.next pc control reply) ((p.move ρ).next pc control (reply.move ρ)) := by
  cases control with
  | branch =>
    have helse : Exec.Mimics ρ id (p.next pc .branch .nothing)
        ((p.move ρ).next pc .branch .nothing) := by
      simp only [next, move]
      cases Block.elseOrEndAfter? p.marks pc with
      | some index => exact .pure rfl
      | none => exact .throw _
    cases reply with
    | truth b =>
      cases b with
      | true => exact .pure rfl
      | false => exact helse
    | _ => exact helse
  | otherwise => exact .bindSame (p.mimics_blockEnd pc _ _) fun _ => .pure rfl
  | whileLoop =>
    have hpast := p.mimics_enterLoop (ρ := ρ) pc .whileLoop none
    cases reply with
    | truth b =>
      cases b with
      | true => exact p.mimics_enterLoop pc .whileLoop (some .whileLoop)
      | false => exact hpast
    | _ => exact hpast
  | endWhile => exact .bind (Exec.mimics_expectLoop _ pc _) fun _ => .pure rfl
  | numericFor =>
    have hpast := p.mimics_enterLoop (ρ := ρ) pc .numericFor none
    cases reply with
    | entry e =>
      cases e with
      | numeric loop => exact p.mimics_enterLoop pc .numericFor (some (.numeric loop))
      | _ => exact hpast
    | _ => exact hpast
  | endNumericFor => exact mimics_endNumericFor pc
  | genericFor =>
    have hpast := p.mimics_enterLoop (ρ := ρ) pc .genericFor none
    cases reply with
    | entry e =>
      cases e with
      | generic loop => exact p.mimics_enterLoop pc .genericFor (some (.generic loop))
      | _ => exact hpast
    | _ => exact hpast
  | endGenericFor => exact mimics_endGenericFor pc
  | _ => exact .pure rfl

end Program

/-! ### Steps and runs -/

/-- The second setup runs the relocated program, and its calls follow those of the first. -/
structure Setup.Moved (ρ : Relocation) (s s' : Setup) : Prop where
  program : s'.program = s.program.move ρ
  settings : s'.settings = s.settings
  functionScope : s'.functionScope = s.functionScope
  caller : Caller.Mimics ρ s.caller s'.caller
  cancelAfter : s'.cancelAfter = s.cancelAfter
  room : s'.room = s.room

inductive Machine.Moved (ρ : Relocation) : Machine → Machine → Prop
  | mk {c c' : Context} (hc : c.Moved ρ c') (pc iterations : Nat) (reported : List Nat) :
    Moved ρ ⟨c, pc, iterations, reported⟩ ⟨c', pc, iterations, reported⟩

structure RunResult.Moved (ρ : Relocation) (r r' : RunResult) : Prop where
  success : r'.success = r.success
  iterations : r'.iterations = r.iterations
  context : r.context.Moved ρ r'.context

theorem RunResult.Moved.returnValue {r r' : RunResult} (hr : r.Moved ρ r') :
    r'.returnValue = r.returnValue.move ρ := by
  rw [RunResult.returnValue, hr.context.returned, Value.move_ofOption]
  rfl

theorem RunResult.Moved.errors {r r' : RunResult} (hr : r.Moved ρ r') : r'.errors = r.errors := by
  rw [RunResult.errors, hr.context.diagnostics]
  rfl

namespace Setup.Moved

variable {s s' : Setup} (hs : s.Moved ρ s') {m m' : Machine}

include hs

theorem instruction? (pc : Nat) :
    s'.program.instructions[pc]? = s.program.instructions[pc]?.map (Instruction.move ρ) := by
  rw [hs.program]
  exact Array.getElem?_map

theorem fail (hc : c.Moved ρ c') (kind : DiagnosticKind) (message : String) (index : Option Nat) :
    (s.fail kind message index c).Moved ρ (s'.fail kind message index c') := by
  have hlabel (i : Nat) : s'.program.instructions[i]?.map Instruction.displayName =
      s.program.instructions[i]?.map Instruction.displayName := by
    rw [hs.instruction?, Option.map_map]
    rfl
  simp only [Setup.fail, hlabel]
  exact hc.report _

theorem mimics_perform (pc : Nat) (i : Instruction) :
    Exec.Mimics ρ id (s.perform pc i) (s'.perform pc (i.move ρ)) := by
  unfold perform
  rw [hs.settings, hs.program]
  refine .bind (i.mimics_evaluate hs.caller _) fun reply => ?_
  have hnext (control : Control) := s.program.mimics_next (ρ := ρ) pc control reply
  cases reply with
  | record output =>
    refine .bindSame (.modify fun c c' hc => ?_) fun _ => ?_
    · have hrecord : resultRecord (i.move ρ) (output.move ρ) =
          (resultRecord i output).move ρ := by
        simp [resultRecord, Instruction.move, Field.move]
      rw [hrecord]
      exact hc.addRecord _
    · rw [Instruction.control_move]
      cases i.control with
      | none => exact .pure rfl
      | some control => exact hnext control
  | _ =>
    rw [Instruction.control_move]
    cases i.control with
    | none => exact .pure rfl
    | some control => exact hnext control

theorem passUnknown (hm : m.Moved ρ m') (i : Instruction) :
    (s.passUnknown i m).Moved ρ (s'.passUnknown (i.move ρ) m') := by
  obtain ⟨hc, pc, iterations, reported⟩ := hm
  unfold Setup.passUnknown
  rw [hs.settings]
  split
  · exact .mk (hc.warn _) _ _ _
  · exact .mk hc _ _ _

theorem dispatch (hm : m.Moved ρ m') (i : Instruction) :
    (s.dispatch i m).1.Moved ρ (s'.dispatch (i.move ρ) m').1 ∧
      (s'.dispatch (i.move ρ) m').2 = (s.dispatch i m).2 := by
  have hunknown : isUnknown (i.move ρ) = isUnknown i := rfl
  unfold Setup.dispatch
  rw [hunknown]
  split
  · exact ⟨hs.passUnknown hm i, rfl⟩
  · obtain ⟨hc, pc, iterations, reported⟩ := hm
    have hr := hs.mimics_perform pc i _ _ hc
    dsimp only
    generalize s.perform pc i _ = r, s'.perform pc (i.move ρ) _ = r' at hr
    cases hr with
    | ok next hc => exact ⟨.mk hc _ _ _, rfl⟩
    | error f hc => exact ⟨.mk (hs.fail hc _ _ _) _ _ _, rfl⟩

theorem leaveLoop (hm : m.Moved ρ m') :
    (s.leaveLoop m).1.Moved ρ (s'.leaveLoop m').1 ∧ (s'.leaveLoop m').2 = (s.leaveLoop m).2 := by
  obtain ⟨hc, pc, iterations, reported⟩ := hm
  unfold Setup.leaveLoop
  rename_i c c'
  dsimp only
  rw [hc.loops]
  cases hloops : c.loops with
  | nil => exact ⟨.mk (hs.fail hc _ _ _) _ _ _, rfl⟩
  | cons frame rest => exact ⟨.mk (hc.withLoops rest) _ _ _, rfl⟩

theorem step (hm : m.Moved ρ m') (i : Instruction) :
    (s.step i m).1.Moved ρ (s'.step (i.move ρ) m').1 ∧
      (s'.step (i.move ρ) m').2 = (s.step i m).2 := by
  have hvisit : (visit i m).Moved ρ (visit (i.move ρ) m') := by
    obtain ⟨hc, pc, iterations, reported⟩ := hm
    exact .mk (hc.place _ _) _ _ _
  have hcancelled : s'.isCancelled m' = s.isCancelled m := by
    obtain ⟨hc, pc, iterations, reported⟩ := hm
    rw [Setup.isCancelled, hs.cancelAfter]
    rfl
  have hcontext : m.context.Moved ρ m'.context := by
    obtain ⟨hc, pc, iterations, reported⟩ := hm
    exact hc
  rw [step_apply, step_apply, hcancelled, hcontext.returned, Option.isSome_map, hs.functionScope,
    hcontext.breakRequested]
  split
  · obtain ⟨hc, pc, iterations, reported⟩ := hm
    exact ⟨.mk (hs.fail hc _ _ _) _ _ _, rfl⟩
  · split
    · exact ⟨hvisit, rfl⟩
    · split
      · exact hs.leaveLoop hvisit
      · exact hs.dispatch hvisit i

theorem steps (budget : Nat) (hm : m.Moved ρ m') :
    (s.steps budget m).1.Moved ρ (s'.steps budget m').1 ∧
      (s'.steps budget m').2 = (s.steps budget m).2 := by
  induction budget generalizing m m' with
  | zero =>
    have hsize : s'.program.size = s.program.size := by
      simp [Program.size, hs.program, Program.move]
    refine ⟨hm, ?_⟩
    obtain ⟨hc, pc, iterations, reported⟩ := hm
    rw [Setup.steps, Setup.steps, hsize]
  | succ budget ih =>
    have hpc : m'.pc = m.pc := by
      cases hm
      rfl
    simp only [Setup.steps, hpc, hs.instruction?]
    cases s.program.instructions[m.pc]? with
    | none => exact ⟨hm, rfl⟩
    | some i =>
      obtain ⟨hstep, hending⟩ := hs.step hm i
      dsimp only [Option.map_some]
      generalize s.step i m = r, s'.step (i.move ρ) m' = r' at hstep hending
      obtain ⟨m₁, ending⟩ := r
      obtain ⟨m₁', ending'⟩ := r'
      dsimp only at hending
      subst hending
      cases ending' with
      | some ending => exact ⟨hstep, rfl⟩
      | none => exact ih hstep

/-- A run that did not fail is checked for loops and breaks that it left behind. -/
theorem conclude_finished (hm : m.Moved ρ m') :
    (s'.conclude m' .finished).1 = (s.conclude m .finished).1 ∧
      (s.conclude m .finished).2.Moved ρ (s'.conclude m' .finished).2 := by
  obtain ⟨hc, pc, iterations, reported⟩ := hm
  rename_i c c'
  have hempty : c'.loops.isEmpty = c.loops.isEmpty := by
    rw [hc.loops]
    exact List.isEmpty_map
  have hshown : c'.loops.describe = c.loops.describe := by rw [hc.loops, LoopStack.describe_move]
  unfold Setup.conclude
  dsimp only
  rw [hempty, hshown]
  split
  · rw [hc.breakRequested, hc.position]
    split
    · exact ⟨rfl, hs.fail hc _ _ _⟩
    · exact ⟨rfl, hc⟩
  · exact ⟨rfl, hc.unplace.warn _⟩

theorem conclude (hm : m.Moved ρ m') (ending : Ending) :
    (s'.conclude m' ending).1 = (s.conclude m ending).1 ∧
      (s.conclude m ending).2.Moved ρ (s'.conclude m' ending).2 := by
  have hfinished := hs.conclude_finished hm
  cases ending with
  | failed =>
    obtain ⟨hc, pc, iterations, reported⟩ := hm
    exact ⟨rfl, hc⟩
  | exhausted =>
    obtain ⟨hc, pc, iterations, reported⟩ := hm
    have hmessage : s'.limitMessage = s.limitMessage := by
      unfold limitMessage
      rw [hs.settings]
    change false = false ∧ (s.fail .resource s.limitMessage (some pc) _).Moved ρ
      (s'.fail .resource s'.limitMessage (some pc) _)
    rw [hmessage]
    exact ⟨rfl, hs.fail hc _ _ _⟩
  | finished => exact hfinished
  | returned => exact hfinished

theorem runFrom (hc : c.Moved ρ c') : (s.runFrom c).Moved ρ (s'.runFrom c') := by
  obtain ⟨hm, hending⟩ := hs.steps s.settings.maxIterations (.mk hc 0 0 [])
  have hdone := hs.conclude hm (s.steps s.settings.maxIterations ⟨c, 0, 0, []⟩).2
  unfold Setup.runFrom
  rw [hs.settings]
  dsimp only
  rw [hending]
  refine ⟨hdone.1, ?_, hdone.2⟩
  generalize (s.steps _ _).1 = m, (s'.steps _ _).1 = m' at hm
  cases hm
  rfl

end Setup.Moved

/-! ### Parameters -/

theorem head_getD_move (args : List Value) :
    (args.map (Value.move ρ)).head?.getD .nil = (args.head?.getD .nil).move ρ := by
  cases args <;> rfl

theorem Context.Moved.bindParameters (hc : c.Moved ρ c') (names : List String)
    (args : List Value) :
    (c.bindParameters names args).Moved ρ
      (c'.bindParameters names (args.map (Value.move ρ))) := by
  induction names generalizing c c' args with
  | nil => exact hc
  | cons name names ih =>
    simp only [Context.bindParameters, head_getD_move, ← List.map_tail]
    exact ih (hc.setVariable name _) args.tail

/-- Two ways to set a variable for a host: both by the same fault, or with the same answer. -/
theorem Context.Moved.setVariableNamed (hc : c.Moved ρ c') (name v : Value) :
    (∃ f, c.setVariableNamed name v = .error f ∧
      c'.setVariableNamed (name.move ρ) (v.move ρ) = .error f) ∨
    ∃ accepted d d', c.setVariableNamed name v = .ok (accepted, d) ∧
      c'.setVariableNamed (name.move ρ) (v.move ρ) = .ok (accepted, d') ∧ d.Moved ρ d' := by
  have hshown := hc.heap.display c.room name
  cases name with
  | text s => exact .inr ⟨_, _, _, rfl, rfl, hc.setVariable s v⟩
  | _ =>
    simp only [Context.setVariableNamed, Value.move] at hshown ⊢
    rw [hc.room, hshown]
    cases c.heap.display c.room _ with
    | error f => exact .inl ⟨f, rfl, rfl⟩
    | ok shown => exact .inr ⟨_, _, _, rfl, rfl, hc.warn _⟩

theorem Context.mimics_bindNamed (names args : List Value) :
    Exec.Mimics ρ id (bindNamed names args)
      (bindNamed (names.map (Value.move ρ)) (args.map (Value.move ρ))) := by
  induction names generalizing args with
  | nil => exact .pure rfl
  | cons name names ih =>
    simp only [List.map_cons, bindNamed, head_getD_move, ← List.map_tail]
    refine .get fun c c' hc => ?_
    obtain ⟨f, hf, hf'⟩ | ⟨accepted, d, d', hd, hd', hm⟩ :=
      hc.setVariableNamed name (args.head?.getD .nil)
    · rw [hf, hf']
      exact .bindSame (.throw f) fun _ => ih args.tail
    · rw [hd, hd']
      exact .bindSame (fun _ _ _ => .ok () hm) fun _ => ih args.tail

namespace Setup.Moved

variable {s s' : Setup} (hs : s.Moved ρ s') {h h' : Heap}

include hs

theorem start (hm : h.Moved ρ h') (notices notices' : Array Diagnostic) :
    (s.start h notices).Moved ρ (s'.start h' notices') where
  heap := hm
  bindings := rfl
  results := by simp [Setup.start, Context.fresh]
  diagnostics := rfl
  returned := rfl
  breakRequested := rfl
  loops := rfl
  position := rfl
  label := rfl
  room := hs.room

theorem run (hm : h.Moved ρ h') (names : List String) (args : List Value)
    (notices notices' : Array Diagnostic) :
    (s.run names args h notices).Moved ρ
      (s'.run names (args.map (Value.move ρ)) h' notices') :=
  hs.runFrom ((hs.start hm notices notices').bindParameters names args)

end Setup.Moved

/-! ### Calls -/

/-- The same fault, or relocated results. -/
inductive Outcomes (ρ : Relocation) :
    Except Fault RunResult → Except Fault RunResult → Prop
  | ok {r r' : RunResult} (h : r.Moved ρ r') : Outcomes ρ (.ok r) (.ok r')
  | error (f : Fault) : Outcomes ρ (.error f) (.error f)

namespace Library

/-- A runner that mimics another one. -/
def Runner.Mimics (ρ : Relocation) (run run' : Runner) : Prop :=
  ∀ (room : Nat) (key : String) (args : List Value) (h h' : Heap)
    (notices notices' : Array Diagnostic), h.Moved ρ h' →
    Outcomes ρ (run room key args h notices) (run' room key (args.map (Value.move ρ)) h' notices')

theorem asCaller_apply (run : Runner) (key : String) (args : List Value) (c : Context) :
    asCaller run key args c =
      match run c.room key args c.heap c.notices with
      | .error f => .error f c
      | .ok r =>
        if r.success then
          .ok r.returnValue { c with heap := r.context.heap, notices := r.context.notices }
        else
          .ok .nil (Context.addRecord (failureRecord key r)
            { c with heap := r.context.heap, notices := r.context.notices }) :=
  rfl

theorem mimics_asCaller {run run' : Runner} (hrun : Runner.Mimics ρ run run') :
    Caller.Mimics ρ (asCaller run) (asCaller run') := by
  intro key args c c' hc
  have hr : Outcomes ρ (run c.room key args c.heap c.notices)
      (run' c'.room key (args.map (Value.move ρ)) c'.heap c'.notices) := by
    rw [hc.room]
    exact hrun _ key args _ _ _ _ hc.heap
  rw [asCaller_apply, asCaller_apply]
  generalize run c.room key args c.heap c.notices = r,
    run' c'.room key (args.map (Value.move ρ)) c'.heap c'.notices = r' at hr
  cases hr with
  | error f => exact .error f hc
  | ok hr =>
    rename_i r r'
    have hback : Context.Moved ρ { c with heap := r.context.heap, notices := r.context.notices }
        { c' with heap := r'.context.heap, notices := r'.context.notices } :=
      { hc with heap := hr.context.heap }
    dsimp only
    rw [hr.success]
    split
    · rw [hr.returnValue]
      exact .ok _ hback
    · have hrecord : failureRecord key r' = failureRecord key r := by
        rw [failureRecord, hr.errors]
        rfl
      rw [hrecord]
      exact .ok Value.nil (hback.addFixed rfl)

end Library

theorem Program.identify_move (i : Instruction) (index : Nat) :
    identify (i.move ρ) index = (identify i index).move ρ := by
  have hid : givenName? (i.move ρ).runtimeId = givenName? i.runtimeId := rfl
  simp only [identify, hid]
  cases givenName? i.runtimeId <;> rfl

theorem Program.ofInstructions_move (instructions : List Instruction) :
    ofInstructions (instructions.map (Instruction.move ρ)) =
      (ofInstructions instructions).move ρ := by
  simp [ofInstructions, move, List.zipIdx_map, Function.comp_def, identify_move]

namespace Library

variable {l : Library} {run run' : Runner}

theorem moved_setupFor (hrun : Runner.Mimics ρ run run') (settings : Settings)
    (instructions : List Instruction) (functionScope : Bool) (room : Nat)
    (cancelAfter : Option Nat) :
    (setupFor settings run instructions functionScope room cancelAfter).Moved ρ
      (setupFor settings run' (instructions.map (Instruction.move ρ)) functionScope room
        cancelAfter) where
  program := Program.ofInstructions_move instructions
  settings := rfl
  functionScope := rfl
  caller := mimics_asCaller hrun
  cancelAfter := rfl
  room := rfl

theorem graphOfData_move {h h' : Heap} (hm : h.Moved ρ h') (key : String) (v : Value) :
    graphOfData h' key (v.move ρ) = (graphOfData h key v).map (Graph.move ρ) := by
  have hkind := hm.kindName v
  have hmap := hm.map? v
  have hgraph := Graph.ofValue_move hm v
  cases v with
  | nil => rfl
  | table a =>
    simp only [graphOfData, Value.move_table] at hkind hmap hgraph ⊢
    rw [hmap, hkind]
    cases h.map? (.table a) with
    | none => rfl
    | some entries =>
      have hnodes : (((Decoder.find? Graph.nodesName (entries.move ρ).fields).map Prod.snd).bind
            h'.array?).isNone =
          (((Decoder.find? Graph.nodesName entries.fields).map Prod.snd).bind h.array?).isNone := by
        rw [Dict.fields_eq_move, Decoder.find?_move]
        cases Decoder.find? Graph.nodesName entries.fields with
        | none => rfl
        | some found => simp [hm.array?]
      simp only [Option.map_some, hnodes, hgraph]
      split
      · rfl
      · cases Graph.ofValue h (.table a) with
        | error f => rfl
        | ok checked => cases checked <;> rfl
  | _ => exact congrArg (fun kind => Except.error (Fault.notGraph kind)) hkind

/-- In a relocated heap the library finds the relocated graphs. -/
def Steady (ρ : Relocation) (l : Library) : Prop :=
  ∀ (h h' : Heap) (key : String), h.Moved ρ h' →
    l.resolve h' key = (l.resolve h key).map (Graph.move ρ)

theorem Steady.mimics_runFunction (hl : l.Steady ρ) (depth : Nat) :
    Runner.Mimics ρ (l.runFunction depth) (l.runFunction depth) := by
  induction depth with
  | zero => exact fun _ _ _ _ _ _ _ _ => .error _
  | succ depth ih =>
    intro room key args h h' notices notices' hm
    have hresolve := hl h h' key hm
    simp only [runFunction, hresolve]
    cases l.resolve h key with
    | error f => exact .error f
    | ok graph =>
      simp only [Except.map, bind, Except.bind]
      split
      · exact .error _
      · exact .ok ((moved_setupFor ih l.settings graph.instructions true _ _).run hm _ args _ _)

end Library

end NodeScript
