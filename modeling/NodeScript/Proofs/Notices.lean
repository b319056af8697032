import NodeScript.Proofs.Steps

/-!
The notices are only written. What a run does depends on nothing that its host has been told before,
so two runs that differ in their notices alone come to the same, with all the calls in them.
-/

namespace NodeScript

variable {s : Setup} {run : Library.Runner} {i : Instruction} {pc : Nat}

/-- Whatever the notices are. -/
abbrev AnyNotices (_ _ : Array Diagnostic) : Prop := True

def Context.withNotices (notices : Array Diagnostic) (c : Context) : Context := { c with notices }

/-- Two states differ in their notices alone. -/
def Context.Renoticed (c c' : Context) : Prop := ∃ notices, c' = c.withNotices notices

theorem coupling_renoticed : Coupling AnyNotices Context.Renoticed where
  heap := by rintro c _ ⟨notices, rfl⟩; rfl
  notices _ := trivial
  bindings := by rintro c _ ⟨notices, rfl⟩; rfl
  label := by rintro c _ ⟨notices, rfl⟩; rfl
  room := by rintro c _ ⟨notices, rfl⟩; rfl
  warn message := by rintro c _ ⟨notices, rfl⟩; exact ⟨_, rfl⟩
  addRecord r := by rintro c _ ⟨notices, rfl⟩; exact ⟨notices, rfl⟩
  bind name v := by rintro c _ ⟨notices, rfl⟩; exact ⟨notices, rfl⟩
  share heap notices notices' _ := by rintro c _ ⟨_, rfl⟩; exact ⟨notices', rfl⟩

theorem Instruction.evaluate_renoticed (i : Instruction) (start : String) (hrun : run.Hears AnyNotices) :
    Exec.Couples Context.Renoticed (i.evaluate start (Library.asCaller run)) := by
  refine coupling_renoticed.instruction ?_ hrun start
  exact
    { requestBreak := by rintro - c _ ⟨notices, rfl⟩; exact ⟨notices, rfl⟩
      returned := by rintro - c _ ⟨notices, rfl⟩; rfl
      setReturned := by rintro - v c _ - ⟨notices, rfl⟩; exact ⟨notices, rfl⟩ }

/-! ### Transitions -/

namespace Program

open Coupling

theorem blockEnd_renoticed (p : Program) (kind : BlockKind) (opener : Control) :
    Exec.Couples Context.Renoticed (p.blockEnd kind opener pc) := by
  unfold blockEnd
  cases Block.endAfter? p.marks kind pc with
  | some index => exact pure _
  | none => exact fun _ _ h => .error _ h

theorem expectLoop_renoticed (kind : LoopKind) (terminator : Control) :
    Exec.Couples Context.Renoticed (Exec.expectLoop kind pc terminator) := by
  refine fetch ?_
  rintro c _ ⟨notices, rfl⟩
  have hloops : (c.withNotices notices).loops = c.loops := rfl
  rw [hloops]
  cases c.loops.expect kind pc terminator.tag with
  | ok frame => exact .ok frame ⟨notices, rfl⟩
  | error e => exact .error _ ⟨notices, rfl⟩

theorem replaceTop_renoticed (state : LoopState) :
    Exec.Couples Context.Renoticed (Exec.replaceTop state) := by
  refine modify ?_
  rintro c _ ⟨notices, rfl⟩
  have hloops : (c.withNotices notices).loops = c.loops := rfl
  rw [hloops]
  cases c.loops with
  | nil => exact ⟨notices, rfl⟩
  | cons top rest => exact ⟨notices, rfl⟩

theorem popLoop_renoticed : Exec.Couples Context.Renoticed Exec.popLoop :=
  modify (by rintro c _ ⟨notices, rfl⟩; exact ⟨notices, rfl⟩)

theorem enterLoop_renoticed (p : Program) (kind : BlockKind) (state? : Option LoopState) :
    Exec.Couples Context.Renoticed (p.enterLoop kind state? pc) := by
  refine andThen (p.blockEnd_renoticed kind kind.opener) fun finish => ?_
  cases state? with
  | none =>
    exact andThen (modify (by rintro c _ ⟨notices, rfl⟩; exact ⟨notices, rfl⟩)) fun _ => pure _
  | some state =>
    exact andThen (modify (by rintro c _ ⟨notices, rfl⟩; exact ⟨notices, rfl⟩)) fun _ => pure _

theorem endNumericFor_renoticed : Exec.Couples Context.Renoticed (endNumericFor pc) := by
  refine andThen (expectLoop_renoticed .numeric .endNumericFor) fun frame => ?_
  cases frame.state with
  | numeric loop =>
    refine andThen (lift _) fun loop => ?_
    split
    · refine andThen (replaceTop_renoticed _) fun _ => andThen (modify ?_) fun _ => pure _
      exact fun _ _ h => coupling_renoticed.setVariable h _ _
    · exact andThen popLoop_renoticed fun _ => pure _
  | whileLoop | generic => exact pure _

theorem endGenericFor_renoticed : Exec.Couples Context.Renoticed (endGenericFor pc) := by
  refine andThen (expectLoop_renoticed .generic .endGenericFor) fun frame => ?_
  cases frame.state with
  | generic loop =>
    refine fetch ?_
    rintro c _ ⟨notices, rfl⟩
    have hheap : (c.withNotices notices).heap = c.heap := rfl
    dsimp only
    rw [hheap]
    refine andThen (lift _) (fun found => ?_) c _ ⟨notices, rfl⟩
    cases found with
    | some entry =>
      refine andThen (replaceTop_renoticed _) fun _ => andThen (modify ?_) fun _ => pure _
      exact fun _ _ h => coupling_renoticed.setVariable (coupling_renoticed.setVariable h _ _) _ _
    | none => exact andThen popLoop_renoticed fun _ => pure _
  | whileLoop | numeric => exact pure _

theorem next_renoticed (p : Program) (control : Control) (reply : Reply) :
    Exec.Couples Context.Renoticed (p.next pc control reply) := by
  unfold next
  split
  · exact pure _
  · split
    · exact pure _
    · exact fun _ _ h => .error _ h
  · exact andThen (p.blockEnd_renoticed _ _) fun _ => pure _
  · exact p.enterLoop_renoticed _ _
  · exact p.enterLoop_renoticed _ _
  · exact andThen (expectLoop_renoticed _ _) fun _ => pure _
  · exact p.enterLoop_renoticed _ _
  · exact p.enterLoop_renoticed _ _
  · exact endNumericFor_renoticed
  · exact p.enterLoop_renoticed _ _
  · exact p.enterLoop_renoticed _ _
  · exact endGenericFor_renoticed
  all_goals exact pure _

end Program

/-! ### Runs -/

def Machine.withNotices (notices : Array Diagnostic) (m : Machine) : Machine :=
  { m with context := m.context.withNotices notices }

def RunResult.withNotices (notices : Array Diagnostic) (r : RunResult) : RunResult :=
  { r with context := r.context.withNotices notices }

namespace Setup

variable (notices : Array Diagnostic)

theorem perform_renoticed (hs : s.caller = Library.asCaller run) (hrun : run.Hears AnyNotices)
    (pc : Nat) (i : Instruction) : Exec.Couples Context.Renoticed (s.perform pc i) := by
  unfold perform
  rw [hs]
  refine Coupling.andThen (i.evaluate_renoticed _ hrun) fun reply => ?_
  have hlog (r : Record) : Exec.Couples Context.Renoticed (modify (·.addRecord r)) :=
    Coupling.modify fun _ _ h => coupling_renoticed.addRecord _ h
  cases i.control with
  | none =>
    cases reply with
    | record output => exact Coupling.andThen (hlog _) fun _ => Coupling.pure _
    | nothing | truth | entry => exact Coupling.pure _
  | some control =>
    have hnext : Exec.Couples Context.Renoticed (s.program.next pc control reply) :=
      s.program.next_renoticed control reply
    cases reply with
    | record output => exact Coupling.andThen (hlog _) fun _ => hnext
    | nothing | truth | entry => exact hnext

theorem leaveLoop_renoticed (m : Machine) :
    ∃ told, s.leaveLoop (m.withNotices notices) =
      ((s.leaveLoop m).1.withNotices told, (s.leaveLoop m).2) := by
  unfold leaveLoop
  have hloops : (m.withNotices notices).context.loops = m.context.loops := rfl
  rw [hloops]
  cases m.context.loops with
  | nil => exact ⟨_, rfl⟩
  | cons frame rest => exact ⟨notices, rfl⟩

theorem passUnknown_renoticed (i : Instruction) (m : Machine) :
    ∃ told, s.passUnknown i (m.withNotices notices) = (s.passUnknown i m).withNotices told := by
  unfold passUnknown
  have hreported : (m.withNotices notices).reported = m.reported := rfl
  have hpc : (m.withNotices notices).pc = m.pc := rfl
  rw [hreported, hpc]
  split
  · exact ⟨_, rfl⟩
  · exact ⟨notices, rfl⟩

theorem dispatch_renoticed (hs : s.caller = Library.asCaller run) (hrun : run.Hears AnyNotices)
    (i : Instruction) (m : Machine) :
    ∃ told, s.dispatch i (m.withNotices notices) =
      ((s.dispatch i m).1.withNotices told, (s.dispatch i m).2) := by
  unfold dispatch
  split
  · obtain ⟨told, hpass⟩ := passUnknown_renoticed (s := s) notices i m
    exact ⟨told, by rw [hpass]⟩
  · have hperform := perform_renoticed hs hrun m.pc i m.context (m.context.withNotices notices)
      ⟨notices, rfl⟩
    dsimp only [Machine.withNotices]
    generalize s.perform m.pc i m.context = r,
      s.perform m.pc i (m.context.withNotices notices) = r' at hperform
    cases hperform with
    | ok next h =>
      obtain ⟨told, rfl⟩ := h
      exact ⟨told, rfl⟩
    | error f h =>
      obtain ⟨told, rfl⟩ := h
      exact ⟨_, rfl⟩

theorem step_renoticed (hs : s.caller = Library.asCaller run) (hrun : run.Hears AnyNotices)
    (i : Instruction) (m : Machine) :
    ∃ told, s.step i (m.withNotices notices) =
      ((s.step i m).1.withNotices told, (s.step i m).2) := by
  have hvisit : visit i (m.withNotices notices) = (visit i m).withNotices notices := rfl
  have hreturned : (m.withNotices notices).context.returned = m.context.returned := rfl
  have hbreak : (m.withNotices notices).context.breakRequested = m.context.breakRequested := rfl
  have hcancel : s.isCancelled (m.withNotices notices) = s.isCancelled m := rfl
  rw [step_apply, step_apply, hvisit, hreturned, hbreak, hcancel]
  split
  · exact ⟨_, rfl⟩
  · split
    · exact ⟨notices, rfl⟩
    · split
      · exact leaveLoop_renoticed notices _
      · exact dispatch_renoticed notices hs hrun i _

theorem steps_renoticed (hs : s.caller = Library.asCaller run) (hrun : run.Hears AnyNotices)
    (budget : Nat) (m : Machine) :
    ∃ told, s.steps budget (m.withNotices notices) =
      ((s.steps budget m).1.withNotices told, (s.steps budget m).2) := by
  induction budget generalizing m notices with
  | zero => exact ⟨notices, rfl⟩
  | succ budget ih =>
    unfold steps
    have hpc : (m.withNotices notices).pc = m.pc := rfl
    rw [hpc]
    cases s.program.instructions[m.pc]? with
    | none => exact ⟨notices, rfl⟩
    | some i =>
      obtain ⟨told, hstep⟩ := step_renoticed notices hs hrun i m
      dsimp only
      rw [hstep]
      rcases s.step i m with ⟨m', _ | ending⟩
      · exact ih told m'
      · exact ⟨told, rfl⟩

theorem conclude_renoticed (m : Machine) (ending : Ending) :
    ∃ told, s.conclude (m.withNotices notices) ending =
      ((s.conclude m ending).1, (s.conclude m ending).2.withNotices told) := by
  have hloops : (m.withNotices notices).context.loops = m.context.loops := rfl
  have hbreak : (m.withNotices notices).context.breakRequested = m.context.breakRequested := rfl
  cases ending with
  | failed => exact ⟨notices, rfl⟩
  | exhausted => exact ⟨_, rfl⟩
  | finished | returned =>
    unfold conclude
    rw [hloops, hbreak]
    dsimp only
    split
    · split
      · exact ⟨_, rfl⟩
      · exact ⟨notices, rfl⟩
    · exact ⟨_, rfl⟩

theorem runFrom_renoticed (hs : s.caller = Library.asCaller run) (hrun : run.Hears AnyNotices)
    (c : Context) :
    ∃ told, s.runFrom (c.withNotices notices) = (s.runFrom c).withNotices told := by
  obtain ⟨told, hsteps⟩ := steps_renoticed notices hs hrun s.settings.maxIterations { context := c }
  obtain ⟨told', hconclude⟩ := conclude_renoticed told
    (s.steps s.settings.maxIterations { context := c }).1
    (s.steps s.settings.maxIterations { context := c }).2 (s := s)
  refine ⟨told', ?_⟩
  simp only [Machine.withNotices] at hsteps
  simp only [runFrom, hsteps]
  simp only [Machine.withNotices] at hconclude
  rw [hconclude]
  rfl

end Setup

theorem Context.bindParameters_renoticed (notices : Array Diagnostic) (names : List String)
    (args : List Value) (c : Context) :
    ∃ told, (c.withNotices notices).bindParameters names args =
      (c.bindParameters names args).withNotices told := by
  induction names generalizing args c notices with
  | nil => exact ⟨notices, rfl⟩
  | cons name names ih =>
    obtain ⟨told, hset⟩ := coupling_renoticed.setVariable ⟨notices, rfl⟩ name
      (args.head?.getD .nil) (c := c)
    simp only [bindParameters, hset]
    exact ih told args.tail _

/-- A called graph comes to the same whatever its host has been told before, however deep calls
nest. -/
theorem Library.hears_runFunction (l : Library) (depth : Nat) :
    (l.runFunction depth).Hears AnyNotices := by
  induction depth with
  | zero => exact fun _ _ _ _ _ _ _ => .error _
  | succ depth ih =>
    intro room key args heap notices notices' _
    simp only [runFunction, bind, Except.bind]
    cases l.resolve heap key with
    | error f => exact .error f
    | ok graph =>
      dsimp only
      split
      · exact .error _
      · let s := setupFor l.settings (l.runFunction depth) graph.instructions true
          (room - callLevels)
        obtain ⟨bound, hbound⟩ := Context.bindParameters_renoticed notices'
          (graph.parameters.getD []) args (s.start heap notices)
        obtain ⟨told, hrun⟩ := Setup.runFrom_renoticed (s := s) bound rfl ih
          ((s.start heap notices).bindParameters (graph.parameters.getD []) args)
        have hstart : s.start heap notices' = (s.start heap notices).withNotices notices' := rfl
        have hresult : s.run (graph.parameters.getD []) args heap notices' =
            (s.run (graph.parameters.getD []) args heap notices).withNotices told := by
          rw [Setup.run, hstart, hbound, hrun]
          rfl
        simp only [pure, Except.pure]
        rw [show setupFor l.settings (l.runFunction depth) graph.instructions true
          (room - callLevels) = s from rfl, hresult]
        exact .ok _ told trivial

end NodeScript
