import NodeScript.Proofs.Effects
import NodeScript.Proofs.Faults

/-!
What one step of the machine can do to the program counter and to the stack of loops, and the states
that a run passes through.
-/

namespace NodeScript

/-- The block that a loop runs. -/
def LoopKind.block : LoopKind → BlockKind
  | .whileLoop => .whileLoop
  | .numeric => .numericFor
  | .generic => .genericFor

/-- How control goes on from the mark at `pc`: the next index and the loops then in progress. -/
inductive Turn (marks : List Mark) (pc : Nat) : Mark → LoopStack → Nat → LoopStack → Prop
  /-- To the next instruction, into a branch or out of one. -/
  | onward {m : Mark} {loops : LoopStack}
      (hm : m = none ∨ m = some .branch ∨ m = some .endBranch ∨ m = some .breakLoop ∨
        m = some .giveBack ∨ m = some .call) :
      Turn marks pc m loops (pc + 1) loops
  | skipBranch {loops : LoopStack} {target : Nat}
      (h : Block.elseOrEndAfter? marks pc = some target) :
      Turn marks pc (some .branch) loops (target + 1) loops
  | skipElse {loops : LoopStack} {target : Nat}
      (h : Block.endAfter? marks .branch pc = some target) :
      Turn marks pc (some .otherwise) loops (target + 1) loops
  | enter {loops : LoopStack} {finish : Nat} (state : LoopState)
      (h : Block.endAfter? marks state.kind.block pc = some finish) :
      Turn marks pc (some state.kind.block.opener) loops (pc + 1)
        (loops.pushIfNew ⟨pc, finish, state⟩).2
  /-- Past a loop that is not entered, or not entered again. -/
  | pass {loops : LoopStack} {finish : Nat} (kind : LoopKind)
      (h : Block.endAfter? marks kind.block pc = some finish) :
      Turn marks pc (some kind.block.opener) loops (finish + 1) (loops.popIfStart pc).2
  /-- Back to the condition of a loop. -/
  | test {rest : LoopStack} {frame : LoopFrame} (h : frame.state.kind = .whileLoop) :
      Turn marks pc (some .endWhile) (frame :: rest) frame.headerIndex (frame :: rest)
  /-- Back to the body of a loop for its next value. -/
  | again {rest : LoopStack} (frame : LoopFrame) (state : LoopState)
      (hk : state.kind ≠ .whileLoop) (h : frame.state.kind = state.kind) :
      Turn marks pc (some state.kind.block.terminator) (frame :: rest) frame.bodyIndex
        ({ frame with state } :: rest)
  /-- Out of a loop that has no further value. -/
  | exhaust {rest : LoopStack} (frame : LoopFrame) (hk : frame.state.kind ≠ .whileLoop) :
      Turn marks pc (some frame.state.kind.block.terminator) (frame :: rest) frame.exitIndex rest

/-- Where control cannot go on: a block has no end, or its end finds no loop of its kind. -/
inductive Stuck (marks : List Mark) (pc : Nat) : Control → LoopStack → Prop
  | branch {loops : LoopStack} (h : Block.elseOrEndAfter? marks pc = none) :
      Stuck marks pc .branch loops
  | otherwise {loops : LoopStack} (h : Block.endAfter? marks .branch pc = none) :
      Stuck marks pc .otherwise loops
  | header {loops : LoopStack} (kind : LoopKind) (h : Block.endAfter? marks kind.block pc = none) :
      Stuck marks pc kind.block.opener loops
  | terminator {loops : LoopStack} (kind : LoopKind)
      (h : ∀ frame rest, loops = frame :: rest → frame.state.kind ≠ kind) :
      Stuck marks pc kind.block.terminator loops

namespace Program

variable {p : Program} {pc pc' : Nat} {control : Control} {reply : Reply} {c c' : Context}
  {f : Fault}

/-! ### Transitions -/

theorem blockEnd_apply (kind : BlockKind) (opener : Control) :
    p.blockEnd kind opener pc c =
      match Block.endAfter? p.marks kind pc with
      | some index => .ok index c
      | none => .error (.structural (.missingEnd kind.terminator.tag opener.tag pc)) c := by
  unfold blockEnd
  cases Block.endAfter? p.marks kind pc <;> rfl

theorem enterLoop_apply (kind : BlockKind) (state? : Option LoopState) :
    p.enterLoop kind state? pc c =
      match Block.endAfter? p.marks kind pc, state? with
      | none, _ => .error (.structural (.missingEnd kind.terminator.tag kind.opener.tag pc)) c
      | some finish, some state =>
        .ok (pc + 1) (c.withLoops (c.loops.pushIfNew ⟨pc, finish, state⟩).2)
      | some finish, none => .ok (finish + 1) (c.withLoops (c.loops.popIfStart pc).2) := by
  simp only [enterLoop, bind, EStateM.bind, blockEnd_apply]
  cases Block.endAfter? p.marks kind pc with
  | none => rfl
  | some finish => cases state? <;> rfl

theorem expectLoop_apply (kind : LoopKind) (terminator : Control) :
    Exec.expectLoop kind pc terminator c =
      match c.loops.expect kind pc terminator.tag with
      | .ok frame => .ok frame c
      | .error e => .error (.structural e) c := by
  simp only [Exec.expectLoop, bind, EStateM.bind, get, getThe, MonadStateOf.get, EStateM.get]
  cases c.loops.expect kind pc terminator.tag <;> rfl

theorem expect_cases (loops : LoopStack) (kind : LoopKind) (index : Int) (terminator : String) :
    (∃ frame rest, loops = frame :: rest ∧ frame.state.kind = kind ∧
      loops.expect kind index terminator = .ok frame) ∨
    ((∀ frame rest, loops = frame :: rest → frame.state.kind ≠ kind) ∧
      ∃ e, loops.expect kind index terminator = .error e) := by
  cases loops with
  | nil => exact Or.inr ⟨by simp, _, rfl⟩
  | cons frame rest =>
    by_cases hk : frame.state.kind = kind
    · exact Or.inl ⟨frame, rest, rfl, hk, by simp [LoopStack.expect, hk]⟩
    · refine Or.inr ⟨?_, .wrongLoop terminator index kind.name frame.state.kind.name, ?_⟩
      · rintro _ _ ⟨⟩
        exact hk
      · simp [LoopStack.expect, hk]

/-- At the end of a numeric loop in progress the cursor moves. -/
theorem endNumericFor_apply (c : Context) (loop : NumericLoop) (start finish : Int)
    (rest : LoopStack) :
    endNumericFor pc (c.withLoops (⟨start, finish, .numeric loop⟩ :: rest)) =
      match loop.advance with
      | .error f => .error f (c.withLoops (⟨start, finish, .numeric loop⟩ :: rest))
      | .ok next =>
        if next.inRange then
          .ok (start.toNat + 1)
            ((c.withLoops (⟨start, finish, .numeric next⟩ :: rest)).setVariables
              [(next.controlVariable, .number next.current)])
        else .ok (finish.toNat + 1) (c.withLoops rest) := by
  simp only [endNumericFor, bind, EStateM.bind, expectLoop_apply, Context.withLoops,
    LoopStack.expect, LoopState.kind, if_true]
  cases loop.advance with
  | error f => rfl
  | ok next =>
    simp only [Exec.lift, pure, EStateM.pure]
    cases next.inRange <;> rfl

/-- At the end of a generic loop in progress the next entry is taken. -/
theorem endGenericFor_apply (c : Context) (loop : GenericLoop) (start finish : Int)
    (rest : LoopStack) :
    endGenericFor pc (c.withLoops (⟨start, finish, .generic loop⟩ :: rest)) =
      match (loop.advance c.heap).1 with
      | .error f => .error f (c.withLoops (⟨start, finish, .generic loop⟩ :: rest))
      | .ok (some (k, v)) =>
        .ok (start.toNat + 1)
          ((c.withLoops (⟨start, finish, .generic (loop.advance c.heap).2⟩ :: rest)).setVariables
            [((loop.advance c.heap).2.keyVariable, k), ((loop.advance c.heap).2.valueVariable, v)])
      | .ok none => .ok (finish.toNat + 1) (c.withLoops rest) := by
  simp only [endGenericFor, bind, EStateM.bind, expectLoop_apply, Context.withLoops,
    LoopStack.expect, LoopState.kind, if_true, get, getThe, MonadStateOf.get, EStateM.get]
  cases (loop.advance c.heap).1 with
  | error f => rfl
  | ok found => cases found <;> rfl

/-- What a transition does to the state: control turns, loop variables are set, or it is stuck, or
a loop cannot move on to its next value. -/
def Moves (p : Program) (pc : Nat) (control : Control) (c : Context) :
    EStateM.Result Fault Context Nat → Prop
  | .ok pc' c' => ∃ loops bindings, Turn p.marks pc (some control) c.loops pc' loops ∧
      c' = (c.withLoops loops).setVariables bindings
  | .error f c' => c' = c ∧ (Call.isContained f = true → Stuck p.marks pc control c.loops)

theorem enterLoop_moves (kind : LoopKind) (state? : Option LoopState)
    (hs : ∀ state, state? = some state → state.kind = kind) :
    Moves p pc kind.block.opener c (p.enterLoop kind.block state? pc c) := by
  rw [enterLoop_apply]
  cases he : Block.endAfter? p.marks kind.block pc with
  | none => exact ⟨rfl, fun _ => .header kind he⟩
  | some finish =>
    cases state? with
    | none => exact ⟨_, [], .pass kind he, rfl⟩
    | some state =>
      obtain rfl := hs state rfl
      exact ⟨_, [], .enter state he, rfl⟩

theorem endWhile_moves :
    Moves p pc .endWhile c
      ((return (← Exec.expectLoop .whileLoop pc .endWhile).headerIndex : Exec Nat) c) := by
  simp only [bind, EStateM.bind, expectLoop_apply]
  obtain ⟨frame, rest, hl, hk, he⟩ | ⟨hno, e, he⟩ :=
    expect_cases c.loops .whileLoop pc Control.endWhile.tag
  · rw [he]
    refine ⟨c.loops, [], ?_, rfl⟩
    rw [hl]
    exact .test hk
  · rw [he]
    exact ⟨rfl, fun _ => .terminator .whileLoop hno⟩

theorem endNumericFor_moves : Moves p pc .endNumericFor c (endNumericFor pc c) := by
  obtain ⟨⟨start, finish, state⟩, rest, hl, hk, -⟩ | ⟨hno, e, he⟩ :=
    expect_cases c.loops .numeric pc Control.endNumericFor.tag
  · obtain ⟨loop, rfl⟩ : ∃ loop, state = .numeric loop := by
      cases state <;> simp_all [LoopState.kind]
    have hc : c = c.withLoops (⟨start, finish, .numeric loop⟩ :: rest) := by
      rw [← hl]
      rfl
    have happly := @endNumericFor_apply pc c loop start finish rest
    rw [← hc] at happly
    rw [happly]
    cases ha : loop.advance with
    | error f =>
      refine ⟨rfl, fun hf => ?_⟩
      simp [loop.advance_uncontained.of_error ha] at hf
    | ok next =>
      dsimp only
      split
      · refine ⟨_, _, ?_, rfl⟩
        rw [hl]
        exact .again ⟨start, finish, .numeric loop⟩ (.numeric next)
          (by simp [LoopState.kind]) rfl
      · refine ⟨rest, [], ?_, rfl⟩
        rw [hl]
        exact .exhaust ⟨start, finish, .numeric loop⟩ (by simp [LoopState.kind])
  · simp only [endNumericFor, bind, EStateM.bind, expectLoop_apply, he]
    exact ⟨rfl, fun _ => .terminator .numeric hno⟩

theorem endGenericFor_moves : Moves p pc .endGenericFor c (endGenericFor pc c) := by
  obtain ⟨⟨start, finish, state⟩, rest, hl, hk, -⟩ | ⟨hno, e, he⟩ :=
    expect_cases c.loops .generic pc Control.endGenericFor.tag
  · obtain ⟨loop, rfl⟩ : ∃ loop, state = .generic loop := by
      cases state <;> simp_all [LoopState.kind]
    have hc : c = c.withLoops (⟨start, finish, .generic loop⟩ :: rest) := by
      rw [← hl]
      rfl
    have happly := @endGenericFor_apply pc c loop start finish rest
    rw [← hc] at happly
    rw [happly]
    cases ha : (loop.advance c.heap).1 with
    | error f =>
      refine ⟨rfl, fun hf => ?_⟩
      simp [(loop.advance_uncontained c.heap).of_error ha] at hf
    | ok found =>
      cases found with
      | some entry =>
        refine ⟨_, _, ?_, rfl⟩
        rw [hl]
        exact .again ⟨start, finish, .generic loop⟩ (.generic _)
          (by simp [LoopState.kind]) rfl
      | none =>
        refine ⟨rest, [], ?_, rfl⟩
        rw [hl]
        exact .exhaust ⟨start, finish, .generic loop⟩ (by simp [LoopState.kind])
  · simp only [endGenericFor, bind, EStateM.bind, expectLoop_apply, he]
    exact ⟨rfl, fun _ => .terminator .generic hno⟩

theorem branch_moves :
    Moves p pc .branch c
      ((match Block.elseOrEndAfter? p.marks pc with
        | some index => return index + 1
        | none => throw (.structural (.missingElseOrEnd pc)) : Exec Nat) c) := by
  cases he : Block.elseOrEndAfter? p.marks pc with
  | none => exact ⟨rfl, fun _ => .branch he⟩
  | some target => exact ⟨c.loops, [], .skipBranch he, rfl⟩

theorem otherwise_moves :
    Moves p pc .otherwise c
      ((return (← p.blockEnd .branch .otherwise pc) + 1 : Exec Nat) c) := by
  simp only [bind, EStateM.bind, blockEnd_apply]
  cases he : Block.endAfter? p.marks .branch pc with
  | none => exact ⟨rfl, fun _ => .otherwise he⟩
  | some target => exact ⟨c.loops, [], .skipElse he, rfl⟩

theorem onward_moves (hc : control = .branch ∨ control = .endBranch ∨ control = .breakLoop ∨
    control = .giveBack ∨ control = .call) :
    Moves p pc control c ((return pc + 1 : Exec Nat) c) :=
  ⟨c.loops, [], .onward (by simpa using hc), rfl⟩

theorem next_moves : Moves p pc control c (p.next pc control reply c) := by
  cases control with
  | branch =>
    rcases reply with _ | _ | (_ | _) | _
    case truth.true => exact onward_moves (by simp)
    all_goals exact branch_moves
  | otherwise => exact otherwise_moves
  | whileLoop =>
    rcases reply with _ | _ | (_ | _) | _
    case truth.true => exact enterLoop_moves .whileLoop (some .whileLoop) (by simp [LoopState.kind])
    all_goals exact enterLoop_moves .whileLoop none (by simp)
  | endWhile => exact endWhile_moves
  | numericFor =>
    rcases reply with _ | _ | _ | (_ | loop | _)
    case entry.numeric =>
      exact enterLoop_moves .numeric (some (.numeric loop)) (by simp [LoopState.kind])
    all_goals exact enterLoop_moves .numeric none (by simp)
  | endNumericFor => exact endNumericFor_moves
  | genericFor =>
    rcases reply with _ | _ | _ | (_ | _ | loop)
    case entry.generic =>
      exact enterLoop_moves .generic (some (.generic loop)) (by simp [LoopState.kind])
    all_goals exact enterLoop_moves .generic none (by simp)
  | endGenericFor => exact endGenericFor_moves
  | endBranch | breakLoop | giveBack | call => exact onward_moves (by simp)

end Program

namespace Setup

variable {s : Setup} {run : Library.Runner} {i : Instruction} {m m' : Machine} {pc pc' : Nat}
  {c c' : Context} {f : Fault}

/-! ### Steps -/

/-- An evaluation leaves the loops alone and reports warnings only. Breaks alone request a break. -/
structure Worked (i : Instruction) (c c' : Context) : Prop where
  loops : c'.loops = c.loops
  reports : OnlyWarns c c'
  breakRequested : i.control ≠ some .breakLoop → c'.breakRequested = c.breakRequested

theorem worked_evaluate (i : Instruction) (start : String) (run : Library.Runner) (c : Context) :
    Worked i c (Exec.after (i.evaluate start (Library.asCaller run)) c) where
  loops := tolerant_loops.instruction (fun _ _ => rfl) (fun _ _ _ _ => rfl) start run c
  reports := tolerant_onlyWarns.instruction (fun _ _ _ => Or.inl) (fun _ _ _ _ _ => Or.inl)
    start run c
  breakRequested hi :=
    tolerant_breakRequested.instruction (fun h => absurd h hi) (fun _ _ _ _ => rfl) start run c

/-- The state once the result of an instruction is in the log. -/
def logged (i : Instruction) (reply : Reply) (c : Context) : Context :=
  match reply with
  | .record output => c.addRecord (resultRecord i output)
  | _ => c

theorem perform_apply (s : Setup) (pc : Nat) (i : Instruction) (c : Context) :
    s.perform pc i c =
      match i.evaluate s.settings.functionPrefix s.caller c with
      | .error f c' => .error f c'
      | .ok reply c' =>
        match i.control with
        | some control => s.program.next pc control reply (logged i reply c')
        | none => .ok (pc + 1) (logged i reply c') := by
  simp only [perform, bind, EStateM.bind]
  cases i.evaluate s.settings.functionPrefix s.caller c with
  | error f c' => rfl
  | ok reply c' => cases i.control <;> cases reply <;> rfl

theorem Worked.logged {i : Instruction} {c c' : Context} (h : Worked i c c') (reply : Reply) :
    Worked i c (logged i reply c') := by
  cases reply with
  | record output => exact ⟨h.loops, h.reports, h.breakRequested⟩
  | nothing | truth | entry => exact h

/-- What performing an instruction does to the state. -/
def Performs (s : Setup) (pc : Nat) (i : Instruction) (c : Context) :
    EStateM.Result Fault Context Nat → Prop
  | .ok pc' c' => ∃ c₁ loops bindings, Worked i c c₁ ∧
      Turn s.program.marks pc i.control c.loops pc' loops ∧
      c' = (c₁.withLoops loops).setVariables bindings
  | .error f c' => Worked i c c' ∧ (Call.isContained f = true →
      ∃ control, i.control = some control ∧ Stuck s.program.marks pc control c.loops)

theorem perform_performs (hs : s.caller = Library.asCaller run) (pc : Nat) (i : Instruction)
    (c : Context) : Performs s pc i c (s.perform pc i c) := by
  have hw := worked_evaluate i s.settings.functionPrefix run c
  rw [perform_apply, hs]
  unfold Exec.after at hw
  cases he : i.evaluate s.settings.functionPrefix (Library.asCaller run) c with
  | error f c' =>
    rw [he] at hw
    have hf := (i.evaluate_uncontained _ _).of_error he
    exact ⟨hw, by simp [hf]⟩
  | ok reply c' =>
    rw [he] at hw
    have hl := hw.logged reply
    dsimp only
    generalize logged i reply c' = c₁ at hl ⊢
    cases hi : i.control with
    | none =>
      refine ⟨c₁, c.loops, [], hl, ?_, by rw [← hl.loops]; rfl⟩
      rw [hi]
      exact .onward (by simp)
    | some control =>
      have hn := @Program.next_moves s.program pc control reply c₁
      dsimp only
      cases hr : s.program.next pc control reply c₁ with
      | ok pc' c' =>
        rw [hr] at hn
        obtain ⟨loops, bindings, ht, rfl⟩ := hn
        rw [hl.loops, ← hi] at ht
        exact ⟨c₁, loops, bindings, hl, ht, rfl⟩
      | error f c' =>
        rw [hr] at hn
        obtain ⟨rfl, hf⟩ := hn
        rw [hl.loops] at hf
        exact ⟨hl, fun h => ⟨control, hi, hf h⟩⟩

/-- What becomes of the loops in a step after which the run goes on. -/
inductive Goes (s : Setup) (i : Instruction) (m m' : Machine) : Prop
  /-- A pending break leaves the innermost loop. -/
  | leaves (frame : LoopFrame) (hloops : m.context.loops = frame :: m'.context.loops)
      (hpc : m'.pc = frame.exitIndex) (hbreak : m'.context.breakRequested = false)
  | turns (hturn : Turn s.program.marks m.pc i.control m.context.loops m'.pc m'.context.loops)
      (hbreak : m'.context.breakRequested = true → i.control = some .breakLoop)

theorem leaveLoop_goes (h : s.leaveLoop m = (m', none)) :
    Goes s i m m' ∧ OnlyWarns m.context m'.context := by
  unfold leaveLoop at h
  split at h
  · next frame rest hl =>
    cases h
    exact ⟨.leaves frame hl rfl rfl, fun d hd => Or.inl hd⟩
  · cases h

theorem passUnknown_goes (hi : isUnknown i = true) (hb : m.context.breakRequested = false) :
    Goes s i m (s.passUnknown i m) ∧ OnlyWarns m.context (s.passUnknown i m).context := by
  have hn : i.control = none := by
    simp only [isUnknown, Bool.and_eq_true, Option.isNone_iff_eq_none] at hi
    exact hi.1
  unfold passUnknown
  split
  · refine ⟨.turns ?_ fun h => ?_, tolerant_onlyWarns.warn _ _⟩
    · rw [hn]
      exact .onward (by simp)
    · simp [Context.warn, Context.report, hb] at h
  · refine ⟨.turns ?_ fun h => ?_, tolerant_onlyWarns.refl _⟩
    · rw [hn]
      exact .onward (by simp)
    · simp [hb] at h

theorem dispatch_goes (hs : s.caller = Library.asCaller run)
    (hb : m.context.breakRequested = false) (h : s.dispatch i m = (m', none)) :
    Goes s i m m' ∧ OnlyWarns m.context m'.context := by
  unfold dispatch at h
  split at h
  · next hi =>
    cases h
    exact passUnknown_goes hi hb
  · have hp := perform_performs hs m.pc i m.context
    dsimp only at h
    split at h
    · next pc' c' hr =>
      cases h
      rw [hr] at hp
      obtain ⟨c₁, loops, bindings, hw, ht, rfl⟩ := hp
      have hloops := tolerant_loops.setVariables bindings (c₁.withLoops loops)
      have hbreak := tolerant_breakRequested.setVariables bindings (c₁.withLoops loops)
      have hwarn := tolerant_onlyWarns.setVariables bindings (c₁.withLoops loops)
      refine ⟨.turns ?_ fun hreq => ?_, tolerant_onlyWarns.trans hw.reports hwarn⟩
      · rw [hloops]
        exact ht
      · rw [hbreak] at hreq
        by_contra hi
        have hkeep := hw.breakRequested hi
        simp_all [Context.withLoops]
    · cases h

/-- The state in which an instruction is dispatched: the run says where it is. -/
def visit (i : Instruction) (m : Machine) : Machine :=
  { m with
    context := { m.context with position := some (m.pc : Int), label := some i.displayName }
    iterations := m.iterations + 1 }

theorem step_apply (s : Setup) (i : Instruction) (m : Machine) :
    s.step i m =
      if s.isCancelled m then
        ({ m with
           context := s.fail .cancelled "Execution cancelled by host" (some m.pc) m.context },
         some .failed)
      else if m.context.returned.isSome && s.functionScope then (visit i m, some .returned)
      else if m.context.breakRequested then s.leaveLoop (visit i m)
      else s.dispatch i (visit i m) :=
  rfl

theorem Goes.of_visit (h : Goes s i (visit i m) m') : Goes s i m m' := by
  cases h with
  | leaves frame hloops hpc hbreak => exact .leaves frame hloops hpc hbreak
  | turns hturn hbreak => exact .turns hturn hbreak

/-- All that a step can do if the run goes on after it. -/
theorem step_goes (hs : s.caller = Library.asCaller run) (h : s.step i m = (m', none)) :
    Goes s i m m' ∧ OnlyWarns m.context m'.context := by
  rw [step_apply] at h
  split at h
  · cases h
  · split at h
    · cases h
    · split at h
      · exact (leaveLoop_goes h).imp_left Goes.of_visit
      · next hb => exact (dispatch_goes hs (by simpa [visit] using hb) h).imp_left Goes.of_visit

/-- A structural error is a break with no loop around it, or a place where control is stuck. -/
inductive Structural (s : Setup) (i : Instruction) (m : Machine) (d : Diagnostic) : Prop
  | breakOutside (hbreak : m.context.breakRequested = true) (hloops : m.context.loops = [])
      (hd : d.message = s!"Execution halted: Break encountered outside of a loop (Index {m.pc}).")
  | stuck {control : Control} (hi : i.control = some control)
      (hstuck : Stuck s.program.marks m.pc control m.context.loops)

theorem isContained_of_kind (h : f.kind = .structural) : Call.isContained f = true := by
  cases f with
  | structural e => rfl
  | call e => rfl
  | _ => simp [Fault.kind] at h

theorem mem_fail {kind : DiagnosticKind} {message : String} {index : Option Nat} {d : Diagnostic}
    (h : d ∈ (s.fail kind message index c).diagnostics) :
    d ∈ c.diagnostics ∨ d.kind = kind ∧ d.message = message := by
  obtain h | rfl := Array.mem_push.1 h
  · exact Or.inl h
  · exact Or.inr ⟨rfl, rfl⟩

/-- Whatever a step reports as a structural error is one. -/
theorem step_structural (hs : s.caller = Library.asCaller run) {ending : Ending}
    (h : s.step i m = (m', some ending)) {d : Diagnostic} (hd : d ∈ m'.context.diagnostics)
    (hk : d.kind = .structural) : d ∈ m.context.diagnostics ∨ Structural s i m d := by
  rw [step_apply] at h
  split at h
  · cases h
    obtain hd | hd := mem_fail hd
    · exact Or.inl hd
    · simp [hd.1] at hk
  · split at h
    · cases h
      exact Or.inl hd
    · split at h
      · next hb =>
        unfold leaveLoop at h
        split at h
        · cases h
        · next hl =>
          cases h
          exact (mem_fail hd).imp_right fun hd => .breakOutside hb hl hd.2
      · unfold dispatch at h
        split at h
        · cases h
        · dsimp only at h
          have hp := perform_performs hs m.pc i (visit i m).context
          split at h
          · cases h
          · next f c' hr =>
            cases h
            have hr' : s.perform m.pc i (visit i m).context = .error f c' := hr
            rw [hr'] at hp
            obtain hd | hd := mem_fail hd
            · obtain hd | hd := hp.1.reports d hd
              · exact Or.inl hd
              · simp [hd] at hk
            · obtain ⟨control, hi, hstuck⟩ := hp.2 (isContained_of_kind (hd.1.symm.trans hk))
              exact Or.inr (.stuck hi hstuck)

/-- A step after which the run does not go on has failed, or it found the return slot of a function
full. -/
theorem step_halts {ending : Ending} (h : s.step i m = (m', some ending)) :
    (ending = .returned ∧ m' = visit i m ∧ m.context.returned.isSome = true ∧
      s.functionScope = true) ∨ ending = .failed := by
  rw [step_apply] at h
  split at h
  · cases h
    exact Or.inr rfl
  · split at h
    · next hreturned =>
      cases h
      rw [Bool.and_eq_true] at hreturned
      exact Or.inl ⟨rfl, rfl, hreturned⟩
    · split at h
      · unfold leaveLoop at h
        split at h <;> cases h
        exact Or.inr rfl
      · unfold dispatch at h
        split at h
        · cases h
        · dsimp only at h
          split at h <;> cases h
          exact Or.inr rfl

/-- A step that ends the run by a return changes nothing but the place that the run names. -/
theorem step_returned (h : s.step i m = (m', some .returned)) : m' = visit i m := by
  obtain ⟨-, hm', -⟩ | hfailed := step_halts h
  · exact hm'
  · cases hfailed

theorem step_ending {ending : Ending} (h : s.step i m = (m', some ending)) :
    ending = .returned ∨ ending = .failed :=
  (step_halts h).imp_left And.left

/-- A structural error at the very end is a break with no loop around it. -/
theorem conclude_structural {ending : Ending} {d : Diagnostic}
    (hd : d ∈ (s.conclude m ending).2.diagnostics) (hk : d.kind = .structural) :
    d ∈ m.context.diagnostics ∨
      (ending ≠ .failed ∧ m.context.breakRequested = true ∧ m.context.loops = [] ∧
        d.message = "Execution halted: Break encountered outside of a loop.") := by
  unfold conclude at hd
  split at hd
  · exact Or.inl hd
  · obtain hd | hd := mem_fail hd
    · exact Or.inl hd
    · simp [hd.1] at hk
  all_goals
    split at hd
    · next hl =>
      split at hd
      · next hb => exact (mem_fail hd).imp_right fun hd => ⟨by simp, hb, by simpa using hl, hd.2⟩
      · exact Or.inl hd
    · obtain hd | rfl := Array.mem_push.1 hd
      · exact Or.inl hd
      · simp [Context.warning] at hk

/-! ### Runs -/

/-- So many steps lead from one state to another. -/
inductive Takes (s : Setup) : Nat → Machine → Machine → Prop
  | refl (m : Machine) : Takes s 0 m m
  | more {n : Nat} {i : Instruction} {m m₁ m' : Machine}
      (hi : s.program.instructions[m.pc]? = some i) (hstep : s.step i m = (m₁, none))
      (h : Takes s n m₁ m') : Takes s (n + 1) m m'

theorem Takes.trans {n k : Nat} {m m₁ m' : Machine} (h : Takes s n m m₁) (h' : Takes s k m₁ m') :
    Takes s (n + k) m m' := by
  induction h with
  | refl => simpa using h'
  | more hi hstep _ ih =>
    rw [Nat.succ_add]
    exact .more hi hstep (ih h')

theorem Takes.last {n : Nat} {m m' : Machine} (h : Takes s (n + 1) m m') :
    ∃ m₁ i, Takes s n m m₁ ∧ s.program.instructions[m₁.pc]? = some i ∧
      s.step i m₁ = (m', none) := by
  induction n generalizing m with
  | zero =>
    obtain _ | ⟨hi, hstep, h⟩ := h
    cases h
    exact ⟨m, _, .refl m, hi, hstep⟩
  | succ n ih =>
    obtain _ | ⟨hi, hstep, h⟩ := h
    obtain ⟨m₁, j, ht, hj, hlast⟩ := ih h
    exact ⟨m₁, j, .more hi hstep ht, hj, hlast⟩

/-- A run that has gone on longer than another passes through where that one came to. -/
theorem Takes.rest {k n : Nat} {m m₁ m' : Machine} (h : Takes s k m m₁) (h' : Takes s n m m')
    (hk : k ≤ n) : Takes s (n - k) m₁ m' := by
  induction h generalizing n with
  | refl => exact h'
  | more hi hstep _ ih =>
    cases h' with
    | refl => simp at hk
    | more hi' hstep' h' =>
      obtain rfl := Option.some.inj (hi.symm.trans hi')
      obtain rfl := (Prod.mk.inj (hstep.symm.trans hstep')).1
      simpa using ih h' (by omega)

/-- The state after so many steps, if the run goes on that long. -/
def after? (s : Setup) : (count : Nat) → Machine → Option Machine
  | 0, m => some m
  | count + 1, m => do
    let i ← s.program.instructions[m.pc]?
    match s.step i m with
    | (m, none) => s.after? count m
    | (_, some _) => none

theorem takes_of_after? {n : Nat} {m m' : Machine} (h : s.after? n m = some m') :
    Takes s n m m' := by
  induction n generalizing m with
  | zero =>
    cases h
    exact .refl _
  | succ n ih =>
    obtain ⟨i, hi, h⟩ := Option.bind_eq_some_iff.1 h
    split at h
    · next hstep => exact .more hi hstep (ih h)
    · cases h

theorem Takes.after?_eq {n : Nat} {m m' : Machine} (h : Takes s n m m') :
    s.after? n m = some m' := by
  induction h with
  | refl => rfl
  | more hi hstep _ ih => simp [after?, hi, hstep, ih]

/-- What every step keeps holds along a run. -/
theorem Takes.keeps {P : Machine → Prop} {n : Nat} {m m' : Machine} (h : Takes s n m m')
    (hstep : ∀ i m m', s.program.instructions[m.pc]? = some i → s.step i m = (m', none) →
      P m → P m')
    (hm : P m) : P m' := by
  induction h with
  | refl => exact hm
  | more hi hs _ ih => exact ih (hstep _ _ _ hi hs hm)

@[simp] theorem control_identify (i : Instruction) (index : Nat) :
    (Program.identify i index).control = i.control := by
  unfold Program.identify
  split <;> rfl

theorem control_of_getElem? {instructions : List Instruction}
    (h : (Program.ofInstructions instructions).instructions[pc]? = some i) :
    (instructions.map Instruction.control)[pc]? = some i.control := by
  simp only [Program.ofInstructions, List.getElem?_toArray, List.getElem?_map,
    List.getElem?_zipIdx, Option.map_map, Option.map_eq_some_iff] at h
  obtain ⟨given, hg, rfl⟩ := h
  simp [hg]

/-- The contexts in which a run begins: parameters, which a host may name by any values, are bound
in a fresh context. -/
def Begins (s : Setup) (c : Context) : Prop :=
  ∃ names args heap notices, Context.bindNamed names args (s.start heap notices) = .ok () c

/-- Parameters are bound by setting variables, with a warning where a name is no text. -/
theorem bindNamed_keeps {P : Context → Prop}
    (hset : ∀ name v c, P c → P (c.setVariable name v))
    (hwarn : ∀ shown c, P c → P (c.warn (Context.invalidName shown))) {names args : List Value}
    (hc : P c) (h : Context.bindNamed names args c = .ok () c') : P c' := by
  induction names generalizing args c with
  | nil =>
    cases h
    exact hc
  | cons name names ih =>
    simp only [Context.bindNamed, bind, EStateM.bind, get, getThe, MonadStateOf.get,
      EStateM.get] at h
    cases hn : c.setVariableNamed name (args.head?.getD .nil) with
    | error f =>
      rw [hn] at h
      cases h
    | ok r =>
      rw [hn] at h
      refine ih ?_ h
      unfold Context.setVariableNamed at hn
      split at hn
      · cases hn
        exact hset _ _ c hc
      · cases hd : c.heap.display c.room name with
        | error f =>
          rw [hd] at hn
          cases hn
        | ok shown =>
          rw [hd] at hn
          cases hn
          exact hwarn shown c hc

theorem bindNamed_tolerant {R : Context → Context → Prop} (hR : Tolerant R) (names : List Value)
    (args : List Value) (h : Context.bindNamed names args c = .ok () c') : R c c' :=
  bindNamed_keeps (P := R c) (fun name v c₁ hc => hR.trans hc (hR.setVariable name v c₁))
    (fun _ c₁ hc => hR.trans hc (hR.warn _ c₁)) (hR.refl c) h

/-- Parameters named by texts are bound without fail. -/
theorem bindNamed_texts (parameters : List String) (args : List Value) (c : Context) :
    Context.bindNamed (parameters.map .text) args c = .ok () (c.bindParameters parameters args) := by
  induction parameters generalizing args c with
  | nil => rfl
  | cons name names ih => exact ih args.tail _

/-- Binding parameters named by texts is one way to begin. -/
theorem begins_bindParameters (s : Setup) (parameters : List String) (args : List Value)
    (heap : Heap) (notices : Array Diagnostic) :
    s.Begins ((s.start heap notices).bindParameters parameters args) :=
  ⟨parameters.map .text, args, heap, notices, bindNamed_texts parameters args _⟩

theorem Begins.loops (h : s.Begins c) : c.loops = [] := by
  obtain ⟨names, args, heap, notices, h⟩ := h
  exact bindNamed_tolerant tolerant_loops names args h

theorem Begins.breakRequested (h : s.Begins c) : c.breakRequested = false := by
  obtain ⟨names, args, heap, notices, h⟩ := h
  exact bindNamed_tolerant tolerant_breakRequested names args h

theorem Begins.returned (h : s.Begins c) : c.returned = none := by
  obtain ⟨names, args, heap, notices, h⟩ := h
  exact bindNamed_tolerant tolerant_returned names args h

theorem Begins.diagnostics (h : s.Begins c) {d : Diagnostic} (hd : d ∈ c.diagnostics) :
    d.kind = .warning := by
  obtain ⟨names, args, heap, notices, h⟩ := h
  obtain hd | hd := bindNamed_tolerant tolerant_onlyWarns names args h d hd
  · simp [start, Context.fresh] at hd
  · exact hd

/-- The states at the top of a step of some run. -/
def Reachable (s : Setup) (m : Machine) : Prop :=
  ∃ c n, s.Begins c ∧ Takes s n { context := c } m

/-- How a run of at most `budget` steps ends. -/
theorem steps_cases (budget : Nat) (m : Machine) :
    ∃ n m₁, n ≤ budget ∧ Takes s n m m₁ ∧
      ((s.program.instructions[m₁.pc]? = none ∧ s.steps budget m = (m₁, .finished)) ∨
       (n = budget ∧ s.program.instructions[m₁.pc]?.isSome ∧ s.steps budget m = (m₁, .exhausted)) ∨
       ∃ i m' ending, s.program.instructions[m₁.pc]? = some i ∧ s.step i m₁ = (m', some ending) ∧
         s.steps budget m = (m', ending)) := by
  induction budget generalizing m with
  | zero =>
    refine ⟨0, m, le_rfl, .refl m, ?_⟩
    by_cases hpc : m.pc < s.program.size
    · refine Or.inr (Or.inl ⟨rfl, ?_, by simp [steps, hpc]⟩)
      simpa [Program.size] using hpc
    · exact Or.inl ⟨by simpa [Program.size] using hpc, by simp [steps, hpc]⟩
  | succ budget ih =>
    cases hi : s.program.instructions[m.pc]? with
    | none => exact ⟨0, m, Nat.zero_le _, .refl m, Or.inl ⟨hi, by simp [steps, hi]⟩⟩
    | some i =>
      rcases hstep : s.step i m with ⟨m', _ | ending⟩
      · have hsteps : s.steps (budget + 1) m = s.steps budget m' := by simp [steps, hi, hstep]
        obtain ⟨n, m₁, hn, ht, hend⟩ := ih m'
        refine ⟨n + 1, m₁, by omega, .more hi hstep ht, ?_⟩
        rw [hsteps]
        obtain hend | ⟨rfl, hend⟩ | hend := hend
        · exact Or.inl hend
        · exact Or.inr (Or.inl ⟨rfl, hend⟩)
        · exact Or.inr (Or.inr hend)
      · exact ⟨0, m, Nat.zero_le _, .refl m,
          Or.inr (Or.inr ⟨i, m', ending, hi, hstep, by simp [steps, hi, hstep]⟩)⟩

end Setup

end NodeScript
