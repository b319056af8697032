import NodeScript.Proofs.Appending
import NodeScript.Proofs.CallStack

/-!
What the limit of steps and a cancellation do to a run: they cut it short. A run that is allowed
more steps goes on where the other one stopped, and a run that is cancelled stops where a limit
would have stopped it.
-/

namespace NodeScript

variable {s s' : Setup} {run : Library.Runner} {i : Instruction} {m : Machine} {c : Context}
  {n k limit limit' : Nat}

namespace Setup

/-! ### Runs with more steps -/

theorem steps_congr (hprogram : s'.program = s.program)
    (h : ∀ i ∈ s.program.instructions, ∀ m, s'.step i m = s.step i m) (budget : Nat)
    (m : Machine) : s'.steps budget m = s.steps budget m := by
  induction budget generalizing m with
  | zero => simp only [steps, hprogram]
  | succ budget ih =>
    unfold steps
    rw [hprogram]
    cases hi : s.program.instructions[m.pc]? with
    | none => rfl
    | some i =>
      dsimp only
      rw [h i (Array.mem_of_getElem? hi) m]
      rcases s.step i m with ⟨m', _ | ending⟩
      · exact ih m'
      · rfl

/-- A run with more steps is the run with fewer, continued if that one reaches its limit. -/
theorem steps_add (n k : Nat) (m : Machine) :
    s.steps (n + k) m =
      if (s.steps n m).2 = .exhausted then s.steps k (s.steps n m).1 else s.steps n m := by
  induction n generalizing m with
  | zero =>
    by_cases hpc : m.pc < s.program.size
    · simp [steps, hpc]
    · have hnone : s.program.instructions[m.pc]? = none := by simpa [Program.size] using hpc
      cases k <;> simp [steps, hpc, hnone]
  | succ n ih =>
    rw [Nat.succ_add]
    cases hi : s.program.instructions[m.pc]? with
    | none => simp [steps, hi]
    | some i =>
      rcases hstep : s.step i m with ⟨m', _ | ending⟩
      · have hmore (budget : Nat) : s.steps (budget + 1) m = s.steps budget m' := by
          simp [steps, hi, hstep]
        rw [hmore, hmore]
        exact ih m'
      · have hends (budget : Nat) : s.steps (budget + 1) m = (m', ending) := by
          simp [steps, hi, hstep]
        rw [hends, hends]
        obtain rfl | rfl := step_ending hstep <;> simp

/-- A run that reaches its limit has taken all the steps that it may. -/
theorem iterations_of_exhausted (h : (s.steps n m).2 = .exhausted) :
    (s.steps n m).1.iterations = m.iterations + n := by
  obtain ⟨k, m₁, hk, ht, ⟨-, hsteps⟩ | ⟨rfl, -, hsteps⟩ | ⟨i, m', ending, -, hstep, hsteps⟩⟩ :=
    @steps_cases s n m
  · simp [hsteps] at h
  · rw [hsteps]
    exact ht.iterations
  · rw [hsteps] at h
    obtain rfl | rfl := step_ending hstep <;> simp at h

/-! ### Limits -/

/-- The same run with another limit of steps. -/
def limited (s : Setup) (limit : Nat) : Setup :=
  { s with settings := { s.settings with maxIterations := limit } }

theorem runFrom_limited (s : Setup) (limit : Nat) (c : Context) :
    (s.limited limit).runFrom c =
      (s.limited limit).result (s.steps limit { context := c }).1
        (s.steps limit { context := c }).2 := by
  have hstep : ∀ i ∈ s.program.instructions, ∀ m, (s.limited limit).step i m = s.step i m :=
    fun _ _ _ => rfl
  have hprogram : (s.limited limit).program = s.program := rfl
  rw [← steps_congr hprogram hstep]
  rfl

/-- How a run ends depends on the limit only if that is reached. -/
theorem result_limited {ending : Ending} (hending : ending ≠ .exhausted) (m : Machine) :
    (s.limited limit).result m ending = s.result m ending := by
  cases ending with
  | exhausted => exact absurd rfl hending
  | finished | returned | failed => rfl

end Setup

/-- A run beside one that is allowed more steps than its limit. It is the same, or it says that it
reached the limit; then it has taken all its steps, and what it logged and reported before is the
beginning of what the other one did. -/
structure RunResult.Truncates (limit : Nat) (r r' : RunResult) : Prop where
  same : (∀ d ∈ r.context.diagnostics, d.kind ≠ .resource) → r' = r
  cut : (∃ d ∈ r.context.diagnostics, d.kind = .resource) →
    r.success = false ∧ r.iterations = limit ∧
    r.context.results.toList <+: r'.context.results.toList ∧
    ∃ (before : Array Diagnostic) (last : Diagnostic),
      r.context.diagnostics = before.push last ∧ last.kind = .resource ∧
      last.isError = true ∧ before.toList <+: r'.context.diagnostics.toList

/-- The same as a run that ended at its limit, or that ended before, but for the kind and the
message of the error about the limit: the run was cancelled. -/
inductive RunResult.Cancels (r : RunResult) : RunResult → Prop
  | ended : Cancels r r
  | cancelled (r' : RunResult) (c : Context) (last : Diagnostic) (message : String)
      (hkind : last.kind = .resource) (herror : last.isError = true)
      (hlast : r'.context = c.report last)
      (hr : r = { r' with context := c.report { last with kind := .cancelled, message } }) :
      Cancels r r'

namespace Setup

/-- A run that does not reach its limit never says so. -/
theorem unlimited_of_ended (hs : s.caller = Library.asCaller run) (hc : c.Unlimited)
    (h : (s.steps limit { context := c }).2 ≠ .exhausted) :
    ((s.limited limit).runFrom c).context.Unlimited := by
  rw [runFrom_limited]
  exact enduring_unlimited.conclude h _ (enduring_unlimited.steps hs limit { context := c } hc)

/-- A run that is cut short leaves the beginning of the log and of the reports of a longer one. -/
theorem continues_of_exhausted (hs : s.caller = Library.asCaller run) (hle : limit ≤ limit')
    (h : (s.steps limit { context := c }).2 = .exhausted) :
    (s.steps limit { context := c }).1.context.Continues
      ((s.limited limit').runFrom c).context := by
  obtain ⟨k, rfl⟩ := Nat.exists_eq_add_of_le hle
  rw [runFrom_limited, steps_add, if_pos h]
  generalize (s.steps limit { context := c }).1 = m
  have hsteps := enduring_continues.steps hs k m
  refine enduring_continues.trans hsteps ?_
  by_cases hending : (s.steps k m).2 = .exhausted
  · rw [hending]
    exact Context.continues_report _ _
  · exact enduring_continues.conclude hending _

theorem runFrom_truncates (hs : s.caller = Library.asCaller run) (hc : c.Unlimited)
    (hle : limit ≤ limit') :
    ((s.limited limit).runFrom c).Truncates limit ((s.limited limit').runFrom c) := by
  by_cases h : (s.steps limit { context := c }).2 = .exhausted
  · have hlong := continues_of_exhausted hs hle h
    have hcount := iterations_of_exhausted h
    have hlast : (s.limited limit).runFrom c = (s.limited limit).result
        (s.steps limit { context := c }).1 .exhausted := by rw [runFrom_limited, h]
    constructor
    · intro hnone
      rw [hlast] at hnone
      exact absurd rfl (hnone _ Array.mem_push_self)
    · intro _
      rw [hlast]
      exact ⟨rfl, by simpa [result] using hcount, hlong.results, _, _, rfl, rfl, rfl,
        hlong.diagnostics⟩
  · have hunlimited := unlimited_of_ended hs hc h
    constructor
    · intro _
      obtain ⟨k, rfl⟩ := Nat.exists_eq_add_of_le hle
      rw [runFrom_limited, runFrom_limited, steps_add, if_neg h, result_limited h, result_limited h]
    · rintro ⟨d, hd, hkind⟩
      exact absurd hkind (hunlimited d hd)

/-! ### Cancellation -/

/-- The same run, cancelled by the host after so many steps. -/
def cancelled (s : Setup) (cancelAfter : Option Nat) : Setup :=
  { s with cancelAfter }

/-- The state in which a run is cancelled. -/
def haltedAt (s : Setup) (m : Machine) : Machine :=
  { m with context := s.fail .cancelled "Execution cancelled by host" (some m.pc) m.context }

/-- A run that is to be cancelled goes as far as it would with that many steps allowed. -/
theorem steps_cancelled (hn : m.iterations + k = n) {budget : Nat} (hk : k < budget) :
    (s.cancelled (some n)).steps budget m =
      if ((s.cancelled none).steps k m).2 = .exhausted then
        (s.haltedAt ((s.cancelled none).steps k m).1, .failed)
      else (s.cancelled none).steps k m := by
  obtain ⟨budget, rfl⟩ := Nat.exists_eq_succ_of_ne_zero (Nat.ne_of_gt (Nat.zero_lt_of_lt hk))
  induction k generalizing m budget with
  | zero =>
    have hcancel : (s.cancelled (some n)).isCancelled m = true := by
      simpa [isCancelled, cancelled] using Nat.le_of_eq hn.symm
    cases hi : s.program.instructions[m.pc]? with
    | none =>
      have hpc : ¬ m.pc < s.program.size := by simpa [Program.size] using hi
      simp [steps, cancelled, hi, hpc]
    | some i =>
      have hpc : m.pc < s.program.size := (Array.getElem?_eq_some_iff.1 hi).1
      have hstep : (s.cancelled (some n)).step i m = (s.haltedAt m, some .failed) := by
        rw [step_apply, if_pos hcancel]
        rfl
      have hi' : (s.cancelled (some n)).program.instructions[m.pc]? = some i := hi
      simp only [steps, hi', hstep]
      simp [cancelled, hpc]
  | succ k ih =>
    have hcancel : (s.cancelled (some n)).isCancelled m = false := by
      simp only [isCancelled, cancelled, decide_eq_false_iff_not]
      omega
    cases hi : s.program.instructions[m.pc]? with
    | none => simp [steps, cancelled, hi]
    | some i =>
      have hi' (n? : Option Nat) : (s.cancelled n?).program.instructions[m.pc]? = some i := hi
      have hstep : (s.cancelled (some n)).step i m = (s.cancelled none).step i m := by
        rw [step_apply, hcancel]
        rfl
      simp only [steps, hi', hstep]
      rcases hnext : (s.cancelled none).step i m with ⟨m', _ | ending⟩
      · have hcount := step_iterations hnext
        obtain ⟨budget, rfl⟩ := Nat.exists_eq_succ_of_ne_zero (n := budget) (by omega)
        exact ih (by omega) budget (by omega)
      · obtain rfl | rfl := step_ending hnext <;> simp

/-- A run that is cancelled before its limit stops where that limit would have stopped it. -/
theorem runFrom_cancels (s : Setup) (c : Context) (h : n < limit) :
    (((s.cancelled (some n)).limited limit).runFrom c).Cancels
      (((s.cancelled none).limited n).runFrom c) := by
  rw [runFrom_limited, runFrom_limited,
    steps_cancelled (m := { context := c }) (k := n) (Nat.zero_add n) h]
  generalize (s.cancelled none).steps n { context := c } = r
  obtain ⟨m, ending⟩ := r
  dsimp only
  split
  · next hending =>
    subst hending
    exact .cancelled _ m.context _ "Execution cancelled by host" rfl rfl rfl rfl
  · next hending =>
    rw [result_limited hending, result_limited hending]
    cases ending <;> exact .ended

end Setup

/-! ### Runs without calls -/

namespace Library

/-- The library with another limit of steps. -/
def limited (l : Library) (limit : Nat) : Library :=
  { l with settings := { l.settings with maxIterations := limit } }

theorem control_of_mem {instructions : List Instruction}
    (hi : i ∈ (Program.ofInstructions instructions).instructions) :
    ∃ given ∈ instructions, i.control = given.control := by
  obtain ⟨pc, hpc⟩ := Array.getElem?_of_mem hi
  have hmark := Setup.control_of_getElem? hpc
  simp only [List.getElem?_map, Option.map_eq_some_iff] at hmark
  obtain ⟨given, hgiven, hcontrol⟩ := hmark
  exact ⟨given, List.mem_of_getElem? hgiven, hcontrol.symm⟩

/-- A run that makes no calls is the same whatever could be called. -/
theorem runFrom_without_calls (l : Library) {instructions : List Instruction}
    (hcalls : ∀ i ∈ instructions, i.control ≠ some .call) (functionScope : Bool)
    (cancelAfter : Option Nat) (limit : Nat) (c : Context) :
    ((l.limited limit).setup instructions functionScope cancelAfter).runFrom c =
      (((setupFor l.settings unanswered instructions functionScope).cancelled
        cancelAfter).limited limit).runFrom c := by
  let s := (l.limited limit).setup instructions functionScope cancelAfter
  have hstep : ∀ i ∈ (s.calling unanswered).program.instructions, ∀ m,
      s.step i m = (s.calling unanswered).step i m := by
    intro i hi m
    refine Setup.step_congr fun _ => ?_
    obtain ⟨given, hgiven, hcontrol⟩ := control_of_mem hi
    have hi : i.control ≠ some .call := hcontrol ▸ hcalls given hgiven
    rw [Instruction.evaluate_of_not_call hi]
  have hprogram : s.program = (s.calling unanswered).program := rfl
  have hsteps := Setup.steps_congr hprogram hstep limit { context := c }
  have hrun : s.runFrom c =
      s.result (s.steps limit { context := c }).1 (s.steps limit { context := c }).2 := rfl
  rw [hrun, hsteps]
  rfl

/-- The limit of steps and a cancellation only cut a run short, if its instructions make no calls.
Whatever the instructions, arguments and parameters are, either these cannot be bound whatever the
limit is, or every run comes to a result. A run that does not reach its limit is the same with a
higher one; else it has taken all the steps that it may, and what it logged and reported before is the
beginning of what it logs and reports with a higher limit. A run that is cancelled after so many
steps is the one that has these as its limit, but for the kind and the message of the error that
says so. -/
theorem limits_only_truncate (l : Library) (instructions : List Instruction)
    (hcalls : ∀ i ∈ instructions, i.control ≠ some .call) (functionScope : Bool)
    (parameters args : List Value) (heap : Heap) (notices : Array Diagnostic) :
    let run (limit : Nat) (cancelAfter : Option Nat) :=
      let s := (l.limited limit).setup instructions functionScope cancelAfter
      s.runNamed parameters args (s.start heap notices)
    (∃ f c, ∀ limit cancelAfter, run limit cancelAfter = .error f c) ∨
    ∃ (result : Nat → Option Nat → RunResult) (c : Context),
      (∀ limit cancelAfter, run limit cancelAfter = .ok (result limit cancelAfter) c) ∧
      (∀ cancelAfter limit limit', limit ≤ limit' →
        (result limit cancelAfter).Truncates limit (result limit' cancelAfter)) ∧
      ∀ count limit, count < limit → (result limit (some count)).Cancels (result count none) := by
  intro run
  let s := setupFor l.settings unanswered instructions functionScope
  have hstart (limit : Nat) (cancelAfter : Option Nat) :
      ((l.limited limit).setup instructions functionScope cancelAfter).start heap notices =
        s.start heap notices := rfl
  cases hbound : Context.bindNamed parameters args (s.start heap notices) with
  | error f c =>
    left
    exact ⟨f, c, fun limit cancelAfter => by simp only [run, Setup.runNamed_apply, hstart, hbound]⟩
  | ok u c =>
    right
    have hrun (limit : Nat) (cancelAfter : Option Nat) : run limit cancelAfter =
        .ok (((s.cancelled cancelAfter).limited limit).runFrom c) c := by
      simp only [run, Setup.runNamed_apply, hstart, hbound, l.runFrom_without_calls hcalls]
      rfl
    have hunlimited : c.Unlimited := by
      intro d hd
      simp [Setup.Begins.diagnostics (s := s) ⟨parameters, args, heap, notices, hbound⟩ hd]
    refine ⟨fun limit cancelAfter => ((s.cancelled cancelAfter).limited limit).runFrom c, c,
      hrun, fun cancelAfter limit limit' hle => ?_, fun count limit h => ?_⟩
    · have hcaller : (s.cancelled cancelAfter).caller = asCaller unanswered := rfl
      exact Setup.runFrom_truncates hcaller hunlimited hle
    · exact s.runFrom_cancels c h

/-- An endless loop that prints. -/
def ticking : List Instruction :=
  [{ tag := "while" }, { tag := "print", config := .ofList [("message", .text "tick")] },
   { tag := "endWhile" }]

def tickingRun (limit : Nat) (cancelAfter : Option Nat) : RunResult :=
  let s := (Library.mk none {} |>.limited limit).setup ticking false cancelAfter
  s.runFrom (s.start {} #[])

/-- Allowed four steps, the loop prints once, which is the beginning of what it prints in nine; if the
host cancels it after four steps it stops at the same place. -/
theorem ticking_truncated :
    (∀ i ∈ ticking, i.control ≠ some .call) ∧
    (tickingRun 4 none).context.results.size < (tickingRun 9 none).context.results.size ∧
    (tickingRun 4 none).Truncates 4 (tickingRun 9 none) ∧
    (tickingRun 9 (some 4)).Cancels (tickingRun 4 none) := by
  have hcalls : ∀ i ∈ ticking, i.control ≠ some .call := by decide +kernel
  refine ⟨hcalls, by decide +kernel, ?_⟩
  obtain ⟨f, c, hfails⟩ | ⟨result, c, hrun, htruncates, hcancels⟩ :=
    limits_only_truncate ⟨none, {}⟩ ticking hcalls false [] [] {} #[]
  · cases hfails 0 none
  · have hresult (limit : Nat) (cancelAfter : Option Nat) :
        result limit cancelAfter = tickingRun limit cancelAfter := by
      have hok := hrun limit cancelAfter
      simp only [Setup.runNamed_apply] at hok
      exact (EStateM.Result.ok.inj hok).1.symm
    rw [← hresult, ← hresult, ← hresult]
    exact ⟨htruncates none 4 9 (by omega), hcancels 4 9 (by omega)⟩

end Library

end NodeScript
