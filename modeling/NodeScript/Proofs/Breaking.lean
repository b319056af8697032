import NodeScript.Proofs.FirstReturn
import NodeScript.Proofs.Reporting

/-!
What becomes of a break. A break is only asked for when it is evaluated; it is carried out at the top
of the next step, which leaves the innermost loop or fails the run. Behind the last instruction there
is no next step. There a break with no loop around it still fails the run, but one that finds a loop
in progress is lost. In nested lists no loop is in progress behind the last instruction.
-/

namespace NodeScript

variable {s : Setup} {run : Library.Runner} {i j : Instruction} {m m' m₁ : Machine} {k n : Nat}
  {c : Context}

theorem evaluate_breakLoop (hi : i.control = some .breakLoop) (start : String) (caller : Caller)
    (c : Context) :
    i.evaluate start caller c = .ok (.record [("action", .text "break")]) c.requestBreak := by
  rw [Instruction.evaluate_of_control hi rfl]
  rfl

namespace Setup

/-! ### Evaluating a break -/

/-- The evaluation is one of a break. -/
structure Breaks (s : Setup) (c : Context) (k : Nat) (i : Instruction) (m : Machine) : Prop
    extends s.Evaluates c k i m where
  control : i.control = some .breakLoop

/-- The break that is evaluated in the step after `k` others, with the state before it. -/
def break? (s : Setup) (c : Context) (k : Nat) : Option (Instruction × Machine) := do
  let m ← s.after? k { context := c }
  let i ← s.program.instructions[m.pc]?
  if k < s.settings.maxIterations ∧ s.isReady m ∧ i.control = some .breakLoop then some (i, m)
  else none

theorem breaks_of_break? (h : s.break? c k = some (i, m)) : s.Breaks c k i m := by
  obtain ⟨m, hm, h⟩ := Option.bind_eq_some_iff.1 h
  obtain ⟨i, hi, h⟩ := Option.bind_eq_some_iff.1 h
  split at h
  · next hready =>
    cases h
    exact ⟨⟨takes_of_after? hm, hready.1, hi, isReady_iff.1 hready.2.1⟩, hready.2.2⟩
  · cases h

/-- The state behind a break: it has been asked for and is in the log. -/
def broken (i : Instruction) (m : Machine) : Machine :=
  { visit i m with
    context := (visit i m).context.requestBreak.addRecord
      (resultRecord i [("action", .text "break")])
    pc := m.pc + 1 }

@[simp] theorem broken_pc : (broken i m).pc = m.pc + 1 := rfl

@[simp] theorem broken_loops : (broken i m).context.loops = m.context.loops := rfl

@[simp] theorem broken_breakRequested : (broken i m).context.breakRequested = true := rfl

theorem Breaks.step_eq (h : s.Breaks c k i m) : s.step i m = (broken i m, none) := by
  rw [step_ready h.ready, dispatch, isUnknown_of_control h.control]
  simp only [Bool.false_eq_true, if_false, perform_apply, evaluate_breakLoop h.control, h.control]
  rfl

theorem Breaks.takes_broken (h : s.Breaks c k i m) :
    s.Takes (k + 1) { context := c } (broken i m) :=
  h.takes.trans (.one h.instruction h.step_eq)

/-- The step behind a break does nothing but carry it out, unless the host cancels the run. -/
theorem Breaks.step_broken (h : s.Breaks c k i m) (hgoing : s.isCancelled (broken i m) = false)
    (j : Instruction) : s.step j (broken i m) = s.leaveLoop (visit j (broken i m)) := by
  have hunreturned : ((broken i m).context.returned.isSome && s.functionScope) = false :=
    h.ready.unreturned
  rw [step_apply, hgoing, hunreturned]
  rfl

/-- Only a break that is evaluated leaves a break to be carried out. -/
theorem ready_of_breakRequested (hs : s.caller = Library.asCaller run)
    (hstep : s.step i m = (m', none)) (hbreak : m'.context.breakRequested = true) :
    s.Ready m ∧ i.control = some .breakLoop := by
  constructor
  · rw [step_apply] at hstep
    split at hstep
    · cases hstep
    · next hgoing =>
      split at hstep
      · cases hstep
      · next hunreturned =>
        split at hstep
        · unfold leaveLoop at hstep
          split at hstep <;> cases hstep
          cases hbreak
        · next hunbroken =>
          exact ⟨by simpa using hgoing, by simpa using hunreturned, by simpa using hunbroken⟩
  · cases (step_goes hs hstep).1 with
    | leaves frame hloops hpc hclear => simp [hclear] at hbreak
    | turns hturn hcontrol => exact hcontrol hbreak

/-- A break is pending only in the state behind one. -/
theorem Takes.breaks (hs : s.caller = Library.asCaller run) (hc : s.Begins c)
    (ht : s.Takes n { context := c } m₁) (hn : n ≤ s.settings.maxIterations)
    (hbreak : m₁.context.breakRequested = true) :
    ∃ k i m, n = k + 1 ∧ s.Breaks c k i m ∧ m₁ = broken i m := by
  cases n with
  | zero =>
    cases ht
    simp [hc.breakRequested] at hbreak
  | succ k =>
    obtain ⟨m, i, ht, hi, hstep⟩ := ht.last
    obtain ⟨hready, hcontrol⟩ := ready_of_breakRequested hs hstep hbreak
    have h : s.Breaks c k i m := ⟨⟨ht, hn, hi, hready⟩, hcontrol⟩
    exact ⟨k, i, m, rfl, h, (Prod.mk.inj (hstep.symm.trans h.step_eq)).1⟩

/-- The step behind a break evaluates nothing. -/
theorem Breaks.not_evaluates (h : s.Breaks c k i m) : ¬ s.Evaluates c (k + 1) j m' := by
  intro he
  have hrest := h.takes_broken.rest he.takes le_rfl
  rw [Nat.sub_self] at hrest
  cases hrest
  exact absurd he.ready.unbroken (by simp)

/-- If no step goes on behind a break, nothing is evaluated there. -/
theorem Breaks.last (h : s.Breaks c k i m)
    (hstop : ∀ j, s.program.instructions[m.pc + 1]? = some j → (s.step j (broken i m)).2 ≠ none)
    (hk : k < n) : ¬ s.Evaluates c n j m' := by
  intro he
  obtain rfl | hlt := Nat.eq_or_lt_of_le hk
  · exact h.not_evaluates he
  · have hrest := h.takes_broken.rest he.takes hk
    obtain ⟨d, hd⟩ : ∃ d, n - (k + 1) = d + 1 := ⟨n - (k + 1) - 1, by omega⟩
    rw [hd] at hrest
    cases hrest with
    | more hj hstep => exact hstop _ hj (by rw [hstep])

/-! ### Runs -/

/-- A step that fails ends the run where it stands. -/
theorem Takes.runFrom_of_failed (ht : s.Takes n { context := c } m)
    (hn : n < s.settings.maxIterations) (hi : s.program.instructions[m.pc]? = some i)
    (hstep : s.step i m = (m', some .failed)) :
    (s.runFrom c).success = false ∧ (s.runFrom c).context = m'.context := by
  simp only [runFrom, ht.steps_halt hn hi hstep, conclude, and_self]

/-- A run that is neither cancelled nor stopped by its limit takes a step wherever there is an
instruction. -/
theorem Takes.goes_on (hended : ∀ d ∈ (s.runFrom c).context.diagnostics,
      d.kind ≠ .resource ∧ d.kind ≠ .cancelled)
    (ht : s.Takes n { context := c } m) (hi : s.program.instructions[m.pc]? = some i) :
    s.isCancelled m = false ∧ n < s.settings.maxIterations := by
  have hin : (s.steps s.settings.maxIterations { context := c }).2 ≠ .exhausted := by
    intro hexhausted
    obtain ⟨d, hd, hk⟩ := exists_resource hexhausted
    exact (hended d hd).1 hk
  have hwithin := ht.lt_of_not_exhausted hi hin
  refine ⟨?_, hwithin⟩
  by_contra hcancel
  -- The report of the cancelled step would stand.
  have hstep := s.step_apply i m
  rw [if_pos (by simpa using hcancel)] at hstep
  obtain ⟨-, hcontext⟩ := ht.runFrom_of_failed hwithin hi hstep
  rw [hcontext] at hended
  exact (hended _ Array.mem_push_self).2 rfl

/-- A run that ends with an error report has no other error. -/
theorem exists_error_of_fail (hs : s.caller = Library.asCaller run) (hc : s.Begins c)
    {kind : DiagnosticKind} {message : String} {index : Option Nat} {c' : Context}
    (hr : (s.runFrom c).context = s.fail kind message index c') :
    ∃ d, (s.runFrom c).errors = [d] ∧ d.kind = kind ∧ d.message = message := by
  obtain ⟨-, haccounted⟩ := runFrom_accounted hs hc.calm
  obtain ⟨d, hd, hkind, hmessage, herror⟩ : ∃ d ∈ (s.fail kind message index c').diagnostics,
      d.kind = kind ∧ d.message = message ∧ d.isError = true :=
    ⟨_, Array.mem_push_self, rfl, rfl, rfl⟩
  rw [← hr] at hd
  exact ⟨d, (haccounted.of_isError hd herror).1, hkind, hmessage⟩

theorem Breaks.next_eq_none_iff (h : s.Breaks c k i m) :
    s.program.instructions[m.pc + 1]? = none ↔ m.pc + 1 = s.program.size := by
  have hpc : m.pc < s.program.size := (Array.getElem?_eq_some_iff.1 h.instruction).1
  rw [Array.getElem?_eq_none_iff]
  change s.program.size ≤ m.pc + 1 ↔ _
  omega

/-- Behind a break that is the last instruction a run is over. -/
theorem Breaks.runFrom_of_end (h : s.Breaks c k i m)
    (hend : s.program.instructions[m.pc + 1]? = none) :
    (s.runFrom c).success = (s.conclude (broken i m) .finished).1 ∧
      (s.runFrom c).context = (s.conclude (broken i m) .finished).2 := by
  have hsize := h.next_eq_none_iff.1 hend
  have hsteps : s.steps (s.settings.maxIterations - (k + 1)) (broken i m) =
      (broken i m, .finished) := by
    cases s.settings.maxIterations - (k + 1) with
    | zero => rw [steps, if_neg (by exact hsize.not_lt)]
    | succ budget => rw [steps, show s.program.instructions[(broken i m).pc]? = none from hend]
  simp only [runFrom, h.toEvaluates.steps_eq h.step_eq, hsteps, and_self]

theorem conclude_breakRequested (s : Setup) (m : Machine) (ending : Ending) :
    (s.conclude m ending).2.breakRequested = m.context.breakRequested := by
  unfold conclude
  split
  · rfl
  · rfl
  all_goals
    split
    · split <;> rfl
    · rfl

/-- The last instruction is a break, and control comes to it with a loop in progress. -/
def Trails (s : Setup) (m : Machine) : Prop :=
  m.pc + 1 = s.program.size ∧ m.context.loops ≠ []

/-- What the run reports when a break at an index finds no loop. -/
def strayMessage (s : Setup) (index : Nat) : String :=
  if index + 1 < s.program.size then
    s!"Execution halted: Break encountered outside of a loop (Index {index + 1})."
  else "Execution halted: Break encountered outside of a loop."

/-- A break in the step after `k` others takes effect. -/
inductive TakesEffect (s : Setup) (c : Context) (k : Nat) (m : Machine) : Prop
  /-- The next step evaluates nothing. It leaves the innermost loop and no other, and goes on behind
  its end with no break pending. -/
  | leaves (frame : LoopFrame) (m' : Machine)
      (hloops : m.context.loops = frame :: m'.context.loops)
      (hwithin : k + 1 < s.settings.maxIterations)
      (htakes : s.Takes (k + 2) { context := c } m')
      (hnothing : ∀ j m₁, ¬ s.Evaluates c (k + 1) j m₁)
      (hpc : (m'.pc : Int) = frame.finish + 1)
      (hclear : m'.context.breakRequested = false)
  /-- No loop is in progress. Nothing more is evaluated, and the run fails with this error only. -/
  | fails (d : Diagnostic) (hloops : m.context.loops = [])
      (hnothing : ∀ n > k, ∀ j m₁, ¬ s.Evaluates c n j m₁)
      (hsuccess : (s.runFrom c).success = false) (herrors : (s.runFrom c).errors = [d])
      (hkind : d.kind = .structural) (hmessage : d.message = s.strayMessage m.pc)

section Breaks

variable (hs : s.OfList) (hc : s.Begins c)

include hs hc

theorem Takes.ordered (ht : s.Takes n { context := c } m) :
    LoopStack.Ordered s.program.marks m.pc m.context.loops := by
  refine ht.keeps (P := fun m => LoopStack.Ordered s.program.marks m.pc m.context.loops) ?_ ?_
  · intro i m m' hi hstep hm
    exact ordered_goes (hs.goes hstep) (hs.marked hi) hm
  · rw [hc.loops]
    exact ⟨Nat.zero_le _, by simp, by simp, by simp⟩

/-- The step behind a break leaves the innermost loop, if there is one. -/
theorem Breaks.takesEffect_of_loop (h : s.Breaks c k i m)
    (hj : s.program.instructions[m.pc + 1]? = some j)
    (hgoing : s.isCancelled (broken i m) = false) (hwithin : k + 1 < s.settings.maxIterations)
    {frame : LoopFrame} {rest : LoopStack} (hl : m.context.loops = frame :: rest) :
    s.TakesEffect c k m := by
  have hleave : s.step j (broken i m) =
      ({ visit j (broken i m) with
         context := { (visit j (broken i m)).context with loops := rest, breakRequested := false }
         pc := frame.exitIndex }, none) := by
    rw [h.step_broken hgoing j, leaveLoop,
      show (visit j (broken i m)).context.loops = frame :: rest from hl]
  have hfits := (h.takes.ordered hs hc).fits frame (by simp [hl])
  have hnonneg := hfits.start_nonneg
  have hlt := hfits.start_lt
  refine .leaves frame _ hl hwithin (h.takes_broken.trans (.one hj hleave))
    (fun _ _ => h.not_evaluates) ?_ rfl
  simp only [LoopFrame.exitIndex]
  omega

/-- With no loop in progress the step behind a break fails. -/
theorem Breaks.takesEffect_of_stray (h : s.Breaks c k i m)
    (hj : s.program.instructions[m.pc + 1]? = some j)
    (hgoing : s.isCancelled (broken i m) = false) (hwithin : k + 1 < s.settings.maxIterations)
    (hl : m.context.loops = []) : s.TakesEffect c k m := by
  obtain ⟨run, hcaller⟩ := hs.caller
  have hpc := (Array.getElem?_eq_some_iff.1 hj).1
  have hfail : s.step j (broken i m) =
      ({ visit j (broken i m) with
         context := s.fail .structural (s.strayMessage m.pc) (some (m.pc + 1))
           (visit j (broken i m)).context }, some .failed) := by
    rw [h.step_broken hgoing j, leaveLoop,
      show (visit j (broken i m)).context.loops = [] from hl, strayMessage, if_pos (by exact hpc)]
    rfl
  obtain ⟨hsuccess, hcontext⟩ := h.takes_broken.runFrom_of_failed hwithin hj hfail
  obtain ⟨d, herrors, hkind, hmessage⟩ := exists_error_of_fail hcaller hc hcontext
  refine .fails d hl (fun n hn j' m₁ => h.last (fun j' hj' => ?_) hn) hsuccess herrors hkind
    hmessage
  obtain rfl := Option.some.inj (hj.symm.trans hj')
  simp [hfail]

/-- Behind a break that is the last instruction, with no loop in progress. -/
theorem Breaks.takesEffect_of_end (h : s.Breaks c k i m)
    (hend : s.program.instructions[m.pc + 1]? = none) (hl : m.context.loops = []) :
    s.TakesEffect c k m := by
  obtain ⟨run, hcaller⟩ := hs.caller
  obtain ⟨hsuccess, hcontext⟩ := h.runFrom_of_end hend
  have hsize := h.next_eq_none_iff.1 hend
  have hconclude : s.conclude (broken i m) .finished =
      (false, s.fail .structural (s.strayMessage m.pc)
        ((broken i m).context.position.map Int.toNat) (broken i m).context) := by
    rw [conclude, strayMessage, if_neg hsize.not_lt, show (broken i m).context.loops = [] from hl]
    rfl
  rw [hconclude] at hsuccess hcontext
  obtain ⟨d, herrors, hkind, hmessage⟩ := exists_error_of_fail hcaller hc hcontext
  exact .fails d hl (fun n hn j' m₁ => h.last (by simp [hend]) hn) hsuccess herrors hkind hmessage

end Breaks

theorem TakesEffect.not_trails (h : s.TakesEffect c k m) (hm : s.Breaks c k i m) :
    ¬ s.Trails m := by
  rintro ⟨hlast, hloops⟩
  cases h with
  | leaves frame m' _ _ htakes _ _ _ =>
    have hrest := hm.takes_broken.rest htakes (Nat.le_succ _)
    rw [Nat.add_sub_add_left] at hrest
    cases hrest with
    | more hi _ _ =>
      have hlt : m.pc + 1 < s.program.size := (Array.getElem?_eq_some_iff.1 hi).1
      omega
  | fails d hnone => exact hloops hnone

/-- A break that is the last instruction of a nested list finds no loop in progress. -/
theorem Breaks.not_trails (hs : s.OfList) (hc : s.Begins c) (hn : Block.Nested s.program.marks)
    (h : s.Breaks c k i m) : ¬ s.Trails m := by
  rintro ⟨hlast, hloops⟩
  obtain ⟨settings, run, instructions, functionScope, room, cancelAfter, rfl⟩ := hs
  have htracks := (takes_sound hn rfl hc h.takes_broken).1.tracks
  have hpc : (broken i m).pc = (instructions.map Instruction.control).length := by
    simpa [Program.size, Library.setupFor, Program.ofInstructions] using hlast
  exact hloops (htracks.eq_nil hpc.ge)

/-- Take a run of any instruction list that is neither stopped by its limit nor cancelled. Whatever
break it evaluates takes effect, unless the break is the last instruction and a loop is in progress
there. Such a break is lost: runs that succeed while a break is pending are those that end with one.
A nested list has none. -/
theorem breaks_take_effect_unless_trailing {s : Setup} (hs : s.OfList) {c : Context}
    (hc : s.Begins c) (hended : ∀ d ∈ (s.runFrom c).context.diagnostics,
      d.kind ≠ .resource ∧ d.kind ≠ .cancelled) :
    (∀ k i m, s.Breaks c k i m → (s.TakesEffect c k m ↔ ¬ s.Trails m)) ∧
    ((s.runFrom c).success = true ∧ (s.runFrom c).context.breakRequested = true ↔
      ∃ k i m, s.Breaks c k i m ∧ s.Trails m) ∧
    (Block.Nested s.program.marks → ∀ k i m, s.Breaks c k i m → ¬ s.Trails m) := by
  obtain ⟨run, hcaller⟩ := hs.caller
  refine ⟨fun k i m h => ⟨fun heffect => heffect.not_trails h, fun htrails => ?_⟩, ⟨?_, ?_⟩,
    fun hn k i m h => h.not_trails hs hc hn⟩
  · cases hj : s.program.instructions[m.pc + 1]? with
    | some j =>
      obtain ⟨hgoing, hwithin⟩ := h.takes_broken.goes_on hended hj
      cases hl : m.context.loops with
      | nil => exact h.takesEffect_of_stray hs hc hj hgoing hwithin hl
      | cons frame rest => exact h.takesEffect_of_loop hs hc hj hgoing hwithin hl
    | none =>
      refine h.takesEffect_of_end hs hc hj ?_
      by_contra hloops
      exact htrails ⟨h.next_eq_none_iff.1 hj, hloops⟩
  · rintro ⟨hsuccess, hbreak⟩
    obtain ⟨n, m₁, hn, ht, hend⟩ := @steps_cases s s.settings.maxIterations { context := c }
    obtain ⟨hi, hsteps⟩ | ⟨-, -, hsteps⟩ | ⟨j, m', ending, hj, hstep, hsteps⟩ := hend
    · simp only [runFrom, hsteps, conclude_breakRequested] at hsuccess hbreak
      obtain ⟨k, i, m, rfl, h, rfl⟩ := ht.breaks hcaller hc hn hbreak
      refine ⟨k, i, m, h, h.next_eq_none_iff.1 hi, ?_⟩
      rw [conclude_success (Or.inl rfl), hbreak] at hsuccess
      simpa using hsuccess
    · simp [runFrom, hsteps, conclude] at hsuccess
    · obtain ⟨rfl, rfl, -⟩ | rfl := step_halts hstep
      · -- A pending break is carried out, so the step was not a return.
        simp only [runFrom, hsteps, conclude_breakRequested] at hbreak
        obtain ⟨k, i, m, rfl, h, rfl⟩ := ht.breaks hcaller hc hn hbreak
        obtain ⟨hgoing, -⟩ := ht.goes_on hended hj
        have hending := congrArg Prod.snd hstep
        rw [h.step_broken hgoing, leaveLoop] at hending
        split at hending <;> cases hending
      · simp [runFrom, hsteps, conclude] at hsuccess
  · rintro ⟨k, i, m, h, hlast, hloops⟩
    obtain ⟨hsuccess, hcontext⟩ := h.runFrom_of_end (h.next_eq_none_iff.2 hlast)
    rw [hsuccess, hcontext, conclude_breakRequested, conclude_success (Or.inl rfl)]
    simpa using hloops

/-- A loop that is left through a branch which crosses its end, so that it is still in progress at
the break behind both. An instruction may follow. -/
def leftOpen (followed : Bool) : Setup :=
  Library.setupFor {} (fun _ key _ _ _ => .error (.call (.noLookup key)))
    ([{ tag := "while" },
      { tag := "if", config := .ofList [("conditionOperator", .text "~=")] },
      { tag := "endWhile" }, { tag := "endIf" }, { tag := "break" }] ++
      if followed then [{ tag := "print" }] else []) false

theorem leftOpen_begins (followed : Bool) :
    (leftOpen followed).Begins ((leftOpen followed).start {} #[]) :=
  begins_bindParameters (leftOpen followed) [] [] {} #[]

/-- With an instruction behind it the break leaves the loop. Control then comes to it once more, and
it fails the run. -/
theorem leftOpen_followed_takes_effect :
    (∀ d ∈ ((leftOpen true).runFrom ((leftOpen true).start {} #[])).context.diagnostics,
      d.kind ≠ .resource ∧ d.kind ≠ .cancelled) ∧
    (∃ i m, (leftOpen true).Breaks ((leftOpen true).start {} #[]) 2 i m ∧
      m.context.loops.length = 1 ∧
      (leftOpen true).TakesEffect ((leftOpen true).start {} #[]) 2 m) ∧
    ∃ i m, (leftOpen true).Breaks ((leftOpen true).start {} #[]) 5 i m ∧
      m.context.loops.length = 0 ∧
      (leftOpen true).TakesEffect ((leftOpen true).start {} #[]) 5 m := by
  have hended : ∀ d ∈ ((leftOpen true).runFrom
      ((leftOpen true).start {} #[])).context.diagnostics,
      d.kind ≠ .resource ∧ d.kind ≠ .cancelled := by
    decide +kernel
  have hlist : (leftOpen true).OfList := ⟨_, _, _, _, _, _, rfl⟩
  obtain ⟨htakes, -⟩ := breaks_take_effect_unless_trailing hlist (leftOpen_begins true) hended
  have heffect : ∀ k length, (((leftOpen true).break? ((leftOpen true).start {} #[]) k).map
        fun (_, m) => (m.pc, m.context.loops.length)) = some (4, length) →
      ∃ i m, (leftOpen true).Breaks ((leftOpen true).start {} #[]) k i m ∧
        m.context.loops.length = length ∧
        (leftOpen true).TakesEffect ((leftOpen true).start {} #[]) k m := by
    intro k length h
    obtain ⟨⟨i, m⟩, hm, heq⟩ := Option.map_eq_some_iff.1 h
    obtain ⟨hpc, hlength⟩ := Prod.mk.inj heq
    have hbreaks := breaks_of_break? hm
    have htrails : ¬ (leftOpen true).Trails m := by
      rintro ⟨hlast, -⟩
      rw [hpc] at hlast
      cases hlast
    exact ⟨i, m, hbreaks, hlength, (htakes k i m hbreaks).2 htrails⟩
  exact ⟨hended, heffect 2 1 (by decide +kernel), heffect 5 0 (by decide +kernel)⟩

/-- As the last instruction the break is lost, and the run succeeds. -/
theorem leftOpen_break_lost :
    (leftOpen false).Begins ((leftOpen false).start {} #[]) ∧
    (∀ d ∈ ((leftOpen false).runFrom ((leftOpen false).start {} #[])).context.diagnostics,
      d.kind ≠ .resource ∧ d.kind ≠ .cancelled) ∧
    (∃ i m, (leftOpen false).Breaks ((leftOpen false).start {} #[]) 2 i m ∧
      ¬ (leftOpen false).TakesEffect ((leftOpen false).start {} #[]) 2 m) ∧
    ((leftOpen false).runFrom ((leftOpen false).start {} #[])).success = true ∧
    ((leftOpen false).runFrom ((leftOpen false).start {} #[])).context.breakRequested = true := by
  have hbreak : (((leftOpen false).break? ((leftOpen false).start {} #[]) 2).map
      fun (_, m) => (m.pc, m.context.loops.length)) = some (4, 1) := by
    decide +kernel
  obtain ⟨⟨i, m⟩, hm, heq⟩ := Option.map_eq_some_iff.1 hbreak
  obtain ⟨hpc, hlength⟩ := Prod.mk.inj heq
  have hbreaks := breaks_of_break? hm
  have htrails : (leftOpen false).Trails m := by
    refine ⟨by rw [hpc]; rfl, fun hnil => ?_⟩
    simp [hnil] at hlength
  exact ⟨leftOpen_begins false, by decide +kernel,
    ⟨i, m, hbreaks, fun heffect => heffect.not_trails hbreaks htrails⟩, by decide +kernel,
    by decide +kernel⟩

end Setup

end NodeScript
