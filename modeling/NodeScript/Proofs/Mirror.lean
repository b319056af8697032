import NodeScript.Proofs.Script

/-!
One step of the machine beside one step of the interpretation of a script. The machine mirrors the
interpreter when it is in the same state, up to its own loops and the place that it names; with
nothing pending, it then performs an instruction as the interpreter evaluates it.
-/

namespace NodeScript

variable {s : Setup} {run : Library.Runner} {i : Instruction} {m m' : Machine} {w w₁ : Walk}
  {pc pc' : Nat} {loops loops' : LoopStack} {reply : Reply} {c : Context}

/-- What an interpretation of scripts for a run goes by. -/
def Setup.host (s : Setup) : Host := ⟨s.settings, s.functionScope, s.caller⟩

/-- The parts of the state that a run is judged by. -/
structure Context.Agrees (c c' : Context) : Prop where
  bindings : c.bindings = c'.bindings
  heap : c.heap = c'.heap
  results : c.results = c'.results
  returned : c.returned = c'.returned

theorem Context.Agrees.trans {a b : Context} (h : c.Agrees a) (h' : a.Agrees b) : c.Agrees b :=
  ⟨h.bindings.trans h'.bindings, h.heap.trans h'.heap, h.results.trans h'.results,
    h.returned.trans h'.returned⟩

/-- Nothing is pending. -/
structure Walk.Ready (functionScope : Bool) (w : Walk) : Prop where
  breakRequested : w.context.breakRequested = false
  returned : functionScope = true → w.context.returned = none

/-- The machine is at an index with some loops in progress, and else in the same state. -/
structure Mirrors (m : Machine) (w : Walk) (pc : Nat) (loops : LoopStack) : Prop where
  pc_eq : m.pc = pc
  reported_eq : m.reported = w.reported
  context_eq : ∃ position label, m.context = { w.context with loops, position, label }

theorem Mirrors.agrees (h : Mirrors m w pc loops) : m.context.Agrees w.context := by
  obtain ⟨position, label, hc⟩ := h.context_eq
  rw [hc]
  exact ⟨rfl, rfl, rfl, rfl⟩

theorem Mirrors.loops_eq (h : Mirrors m w pc loops) : m.context.loops = loops := by
  obtain ⟨position, label, hc⟩ := h.context_eq
  rw [hc]

theorem Mirrors.returned_eq (h : Mirrors m w pc loops) :
    m.context.returned = w.context.returned := h.agrees.returned

theorem Mirrors.breakRequested_eq (h : Mirrors m w pc loops) :
    m.context.breakRequested = w.context.breakRequested := by
  obtain ⟨position, label, hc⟩ := h.context_eq
  rw [hc]

theorem Mirrors.of_visit (h : Mirrors m (w.visit i pc') pc loops) : Mirrors m w pc loops := by
  obtain ⟨position, label, hc⟩ := h.context_eq
  exact ⟨h.pc_eq, h.reported_eq, position, label, hc⟩

theorem Walk.Ready.visit {functionScope : Bool} (h : w.Ready functionScope) (i : Instruction)
    (index : Nat) : (w.visit i index).Ready functionScope :=
  ⟨h.breakRequested, h.returned⟩

theorem Walk.Ready.setVariables {functionScope : Bool} (h : w.Ready functionScope)
    (bindings : List (String × Value)) :
    Ready functionScope { w with context := w.context.setVariables bindings } where
  breakRequested := (tolerant_breakRequested.setVariables bindings _).trans h.breakRequested
  returned hf := (tolerant_returned.setVariables bindings _).trans (h.returned hf)

/-! ### One step -/

theorem Mirrors.visit (h : Mirrors m w pc loops) (i : Instruction) :
    Setup.visit i m =
      ⟨(w.visit i pc).context.withLoops loops, pc, m.iterations + 1, w.reported⟩ := by
  obtain ⟨position, label, hc⟩ := h.context_eq
  simp only [Setup.visit, hc, h.pc_eq, h.reported_eq, Walk.visit, Context.withLoops]

/-- With nothing pending an instruction is dispatched. -/
theorem step_ready (hcancel : s.cancelAfter = none) (hm : Mirrors m w pc loops)
    (hw : w.Ready s.functionScope) :
    s.step i m = s.dispatch i
      ⟨(w.visit i pc).context.withLoops loops, pc, m.iterations + 1, w.reported⟩ := by
  have hreturn : (m.context.returned.isSome && s.functionScope) = false := by
    rw [hm.returned_eq]
    cases hf : s.functionScope with
    | false => simp
    | true => simp [hw.returned hf]
  rw [Setup.step_apply, hm.breakRequested_eq, hw.breakRequested, hreturn, hm.visit]
  simp [Setup.isCancelled, hcancel]

/-- The machine performs an instruction as the interpreter evaluates it. -/
theorem evaluate_cases (hs : s.caller = Library.asCaller run) (i : Instruction) (pc : Nat)
    (w : Walk) (loops : LoopStack) :
    (∃ f c, s.host.evaluate i pc w = (none, { w with context := c }) ∧
      s.perform pc i ((w.visit i pc).context.withLoops loops) = .error f (c.withLoops loops)) ∨
    ∃ reply c, s.host.evaluate i pc w = (some reply, { w with context := c }) ∧
      s.perform pc i ((w.visit i pc).context.withLoops loops) =
        match i.control with
        | some control => s.program.next pc control reply (c.withLoops loops)
        | none => .ok (pc + 1) (c.withLoops loops) := by
  have halike := evaluate_withLoops i s.settings.functionPrefix run loops (w.visit i pc).context
  rw [Setup.perform_apply, hs]
  simp only [Host.evaluate, Setup.host, hs]
  generalize i.evaluate s.settings.functionPrefix (Library.asCaller run) (w.visit i pc).context = r,
    i.evaluate s.settings.functionPrefix (Library.asCaller run)
      ((w.visit i pc).context.withLoops loops) = r' at halike
  cases halike with
  | @error f c _ hc =>
    subst hc
    exact Or.inl ⟨f, c, rfl, rfl⟩
  | @ok reply c _ hc =>
    subst hc
    exact Or.inr ⟨reply, Setup.logged i reply c, rfl, by cases reply <;> rfl⟩

section Step

variable (hs : s.caller = Library.asCaller run) (hcancel : s.cancelAfter = none)
  (hm : Mirrors m w pc loops) (hw : w.Ready s.functionScope) (hi : Setup.isUnknown i = false)

include hs hcancel hm hw hi

/-- Where the handler fails, the run ends. -/
theorem step_fails (he : s.host.evaluate i pc w = (none, w₁)) :
    ∃ m', s.step i m = (m', some .failed) ∧ m'.context.Agrees w₁.context := by
  obtain ⟨f, c, he', hp⟩ | ⟨reply, c, he', -⟩ := evaluate_cases hs i pc w loops
  · cases he.symm.trans he'
    rw [step_ready hcancel hm hw, Setup.dispatch, if_neg (by simp [hi])]
    simp only [hp]
    exact ⟨_, rfl, rfl, rfl, rfl, rfl⟩
  · cases he.symm.trans he'

/-- Where control cannot go on, the run ends as well. -/
theorem step_stops {control : Control} {f : Fault} (hc : i.control = some control)
    (he : s.host.evaluate i pc w = (some reply, w₁))
    (hnext : s.program.next pc control reply (w₁.context.withLoops loops) =
      .error f (c.withLoops loops')) :
    ∃ m', s.step i m = (m', some .failed) ∧ m'.context.Agrees c := by
  obtain ⟨f, c, he', -⟩ | ⟨reply, c, he', hp⟩ := evaluate_cases hs i pc w loops
  · cases he.symm.trans he'
  · cases he.symm.trans he'
    rw [step_ready hcancel hm hw, Setup.dispatch, if_neg (by simp [hi])]
    rw [hc] at hp
    simp only [hp, hnext]
    exact ⟨_, rfl, rfl, rfl, rfl, rfl⟩

/-- Where control goes on, the machine mirrors the interpreter again. -/
theorem step_moves {control : Control} (hc : i.control = some control)
    (he : s.host.evaluate i pc w = (some reply, w₁))
    (hnext : s.program.next pc control reply (w₁.context.withLoops loops) =
      .ok pc' (c.withLoops loops')) :
    ∃ m', s.step i m = (m', none) ∧ Mirrors m' { w₁ with context := c } pc' loops' := by
  obtain ⟨f, c, he', -⟩ | ⟨reply, c, he', hp⟩ := evaluate_cases hs i pc w loops
  · cases he.symm.trans he'
  · cases he.symm.trans he'
    rw [step_ready hcancel hm hw, Setup.dispatch, if_neg (by simp [hi])]
    rw [hc] at hp
    simp only [hp, hnext]
    exact ⟨_, rfl, rfl, rfl, _, _, rfl⟩

/-- A plain instruction is followed by the next one. -/
theorem step_plain (hplain : Block.isPlain i.control = true)
    (he : s.host.evaluate i pc w = (some reply, w₁)) :
    ∃ m', s.step i m = (m', none) ∧ Mirrors m' w₁ (pc + 1) loops := by
  cases hc : i.control with
  | none =>
    obtain ⟨f, c, he', -⟩ | ⟨reply, c, he', hp⟩ := evaluate_cases hs i pc w loops
    · cases he.symm.trans he'
    · cases he.symm.trans he'
      rw [step_ready hcancel hm hw, Setup.dispatch, if_neg (by simp [hi])]
      rw [hc] at hp
      simp only [hp]
      exact ⟨_, rfl, rfl, rfl, _, _, rfl⟩
  | some control =>
    have hnext : s.program.next pc control reply (w₁.context.withLoops loops) =
        .ok (pc + 1) (w₁.context.withLoops loops) := by
      rw [hc] at hplain
      cases control with
      | breakLoop | giveBack | call => rfl
      | _ => simp [Block.isPlain, Block.startsBody, Block.endsBody, Control.opens?,
          Control.closes?] at hplain
    exact step_moves hs hcancel hm hw hi hc he hnext

end Step

/-- A pending break is looked at before the next instruction is. -/
theorem step_pending (hcancel : s.cancelAfter = none)
    (hm : Mirrors m { w with context := w.context.requestBreak } pc loops)
    (hw : w.Ready s.functionScope) : s.step i m = s.leaveLoop (Setup.visit i m) := by
  have hreturn : (m.context.returned.isSome && s.functionScope) = false := by
    rw [hm.returned_eq]
    cases hf : s.functionScope with
    | false => simp
    | true => simp [Context.requestBreak, hw.returned hf]
  rw [Setup.step_apply, hm.breakRequested_eq, hreturn]
  simp [Setup.isCancelled, hcancel, Context.requestBreak]

/-- It leaves the innermost loop. -/
theorem step_break (hcancel : s.cancelAfter = none) {frame : LoopFrame}
    (hm : Mirrors m { w with context := w.context.requestBreak } pc (frame :: loops))
    (hw : w.Ready s.functionScope) :
    ∃ m', s.step i m = (m', none) ∧ Mirrors m' w frame.exitIndex loops := by
  rw [step_pending hcancel hm hw, hm.visit]
  simp only [Setup.leaveLoop, Context.withLoops, Walk.visit, Context.requestBreak]
  exact ⟨_, rfl, rfl, rfl, some (pc : Int), some i.displayName, by simp only [hw.breakRequested]⟩

/-- Outside of all loops it ends the run. -/
theorem step_stray (hcancel : s.cancelAfter = none)
    (hm : Mirrors m { w with context := w.context.requestBreak } pc [])
    (hw : w.Ready s.functionScope) :
    ∃ m', s.step i m = (m', some .failed) ∧ m'.context.Agrees w.context := by
  rw [step_pending hcancel hm hw, hm.visit]
  exact ⟨_, rfl, rfl, rfl, rfl, rfl⟩

/-- A function that has returned ends at the next instruction. -/
theorem step_return (hcancel : s.cancelAfter = none) (hm : Mirrors m w pc loops)
    (hscope : s.functionScope = true) (hreturned : w.context.returned.isSome = true) :
    s.step i m = (Setup.visit i m, some .returned) := by
  rw [Setup.step_apply, hm.returned_eq]
  simp [Setup.isCancelled, hcancel, hscope, hreturned]

/-- What no result in the log touches is left as the handler leaves it. -/
theorem evaluate_part {γ : Type} (part : Context → γ)
    (hrecord : ∀ r c, part (Context.addRecord r c) = part c) (i : Instruction) (pc : Nat)
    (w : Walk) :
    part (s.host.evaluate i pc w).2.context =
      part (Exec.after (i.evaluate s.settings.functionPrefix s.caller)
        (w.visit i pc).context) := by
  simp only [Host.evaluate, Exec.after, Setup.host]
  cases i.evaluate s.settings.functionPrefix s.caller (w.visit i pc).context with
  | error f c => rfl
  | ok reply c =>
    cases reply with
    | record output => exact hrecord _ c
    | nothing | truth | entry => rfl

theorem evaluate_breakRequested (hs : s.caller = Library.asCaller run)
    (hi : i.control ≠ some .breakLoop) (pc : Nat) (w : Walk) :
    (s.host.evaluate i pc w).2.context.breakRequested = w.context.breakRequested := by
  rw [evaluate_part Context.breakRequested fun _ _ => rfl, hs]
  exact tolerant_breakRequested.instruction (fun h => absurd h hi) (fun _ _ _ _ => rfl) _ run _

theorem evaluate_returned (hs : s.caller = Library.asCaller run)
    (hi : i.control ≠ some .giveBack) (pc : Nat) (w : Walk) :
    (s.host.evaluate i pc w).2.context.returned = w.context.returned := by
  rw [evaluate_part Context.returned fun _ _ => rfl, hs]
  exact tolerant_returned.instruction (fun _ _ => rfl) (fun h => absurd h hi) _ run _

/-- Headers and ends of blocks leave nothing pending. -/
theorem evaluate_ready (hs : s.caller = Library.asCaller run)
    (hi : Block.isPlain i.control = false) (hw : w.Ready s.functionScope)
    (he : s.host.evaluate i pc w = (some reply, w₁)) : w₁.Ready s.functionScope := by
  have hbreak : i.control ≠ some .breakLoop := fun h => by simp [h, Block.isPlain,
    Block.startsBody, Block.endsBody, Control.opens?, Control.closes?] at hi
  have hreturn : i.control ≠ some .giveBack := fun h => by simp [h, Block.isPlain,
    Block.startsBody, Block.endsBody, Control.opens?, Control.closes?] at hi
  have hb := evaluate_breakRequested hs hbreak pc w
  have hr := evaluate_returned hs hreturn pc w
  rw [he] at hb hr
  exact ⟨hb.trans hw.breakRequested, fun hf => hr.trans (hw.returned hf)⟩

/-- A mark without a handler only moves control. -/
theorem evaluate_mark {control : Control} (hi : i.control = some control)
    (hk : HandlerKind.ofControl? control = none) (pc : Nat) (w : Walk) :
    s.host.evaluate i pc w = (some .nothing, w.visit i pc) := by
  have htag : HandlerKind.ofTag? i.tag = none := by
    unfold HandlerKind.ofTag?
    rw [show Control.ofTag? i.tag = some control from hi]
    exact hk
  unfold Host.evaluate Instruction.evaluate
  rw [htag]
  rfl

end NodeScript
