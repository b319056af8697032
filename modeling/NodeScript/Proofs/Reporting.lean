import Mathlib
import NodeScript.Proofs.Returning
import NodeScript.Proofs.Reuse

/-!
How a run reports that it failed. Up to its last step it reports no error; whatever ends it then, a
host that cancels, a step that fails, the limit of steps or a break outside of a loop, is reported
by one error, after which nothing is reported.
-/

set_option mvcgen.warning false

open Std.Do

namespace NodeScript

variable {s : Setup} {run : Library.Runner} {i : Instruction} {m m' : Machine} {pc n : Nat}
  {c c' : Context} {f : Fault}

/-! ### Faults of a step -/

/-- Fails, if at all, by a fault that is not reported as one of resources. -/
abbrev KeepsResources {α : Type} (x : Exec α) : Prop :=
  ⦃⌜True⌝⦄ x ⦃post⟨fun _ => ⌜True⌝, fun f => ⌜f.kind ≠ .resource⌝⟩⦄

theorem KeepsResources.of_error {α : Type} {x : Exec α} (hx : KeepsResources x)
    (h : x c = .error f c') : f.kind ≠ .resource :=
  EStateM.of_wp_run_eq h (fun r => ∀ f c, r = .error f c → f.kind ≠ .resource)
    (by mvcgen [hx] <;> simp_all) f c' rfl

theorem kind_ne_resource_of_uncontained (h : Call.isContained f = false) : f.kind ≠ .resource := by
  cases f <;> simp_all [Call.isContained, Fault.kind]

@[spec] theorem Exec.lift_keepsResources {α : Type} {e : Except Fault α} (he : Uncontained e) :
    KeepsResources (Exec.lift e) := by
  cases e with
  | ok a => mvcgen [Exec.lift]
  | error f =>
    have hf := kind_ne_resource_of_uncontained (he.of_error rfl)
    mvcgen [Exec.lift]

@[spec] theorem Program.blockEnd_keepsResources (p : Program) (kind : BlockKind) (opener : Control)
    (pc : Nat) : KeepsResources (p.blockEnd kind opener pc) := by
  mvcgen [blockEnd]
  simp [Fault.kind]

@[spec] theorem Exec.expectLoop_keepsResources (kind : LoopKind) (pc : Nat) (terminator : Control) :
    KeepsResources (Exec.expectLoop kind pc terminator) := by
  mvcgen [Exec.expectLoop]
  simp [Fault.kind]

@[spec] theorem Program.enterLoop_keepsResources (p : Program) (kind : BlockKind)
    (state? : Option LoopState) (pc : Nat) : KeepsResources (p.enterLoop kind state? pc) := by
  mvcgen [enterLoop, Exec.pushLoop, Exec.popLoopAt]

@[spec] theorem Program.endNumericFor_keepsResources (pc : Nat) :
    KeepsResources (Program.endNumericFor pc) := by
  mvcgen [endNumericFor, Exec.replaceTop, Exec.popLoop, NumericLoop.advance_uncontained]

@[spec] theorem Program.endGenericFor_keepsResources (pc : Nat) :
    KeepsResources (Program.endGenericFor pc) := by
  mvcgen [endGenericFor, Exec.replaceTop, Exec.popLoop, GenericLoop.advance_uncontained]

theorem Program.next_keepsResources (p : Program) (pc : Nat) (control : Control) (reply : Reply) :
    KeepsResources (p.next pc control reply) := by
  mvcgen [next]
  simp [Fault.kind]

namespace Setup

/-- Performing an instruction fails by what is wrong with a value or with the blocks. -/
theorem perform_kind (h : s.perform pc i c = .error f c') :
    f.kind = .structural ∨ f.kind = .handlerFault := by
  have hkind : f.kind ≠ .resource := by
    rw [perform_apply] at h
    cases he : i.evaluate s.settings.functionPrefix s.caller c with
    | error e d =>
      rw [he] at h
      cases h
      exact kind_ne_resource_of_uncontained ((i.evaluate_uncontained _ _).of_error he)
    | ok reply d =>
      rw [he] at h
      cases hi : i.control with
      | none => simp [hi] at h
      | some control =>
        simp only [hi] at h
        exact (s.program.next_keepsResources pc control reply).of_error h
  unfold Fault.kind at hkind ⊢
  split <;> simp_all

/-! ### Steps -/

theorem passUnknown_iterations (s : Setup) (i : Instruction) (m : Machine) :
    (s.passUnknown i m).iterations = m.iterations := by
  unfold passUnknown
  split <;> rfl

/-- A step after which the run goes on is counted. -/
theorem step_iterations (h : s.step i m = (m', none)) : m'.iterations = m.iterations + 1 := by
  rw [step_apply] at h
  split at h
  · cases h
  · split at h
    · cases h
    · split at h
      · unfold leaveLoop at h
        split at h <;> cases h
        rfl
      · unfold dispatch at h
        split at h
        · cases h
          exact s.passUnknown_iterations i (visit i m)
        · dsimp only at h
          split at h <;> cases h
          rfl

theorem Takes.iterations (h : s.Takes n m m') : m'.iterations = m.iterations + n := by
  induction h with
  | refl => rfl
  | more _ hstep _ ih => rw [ih, step_iterations hstep, Nat.add_right_comm, Nat.add_assoc]

/-- How a step ends a run that has reported no error so far. -/
inductive Ends (s : Setup) (m m' : Machine) : Ending → Prop
  | returned (hcalm : m'.context.Calm) (hcount : m'.iterations = m.iterations + 1) :
      Ends s m m' .returned
  | cancelled (message : String) (hcancel : s.isCancelled m = true)
      (hcalm : m.context.Calm) (hcount : m'.iterations = m.iterations)
      (hc : m'.context = s.fail .cancelled message (some m.pc) m.context) : Ends s m m' .failed
  | failed (kind : DiagnosticKind) (message : String) (c : Context)
      (hkind : kind = .structural ∨ kind = .handlerFault) (hcalm : c.Calm)
      (hcount : m'.iterations = m.iterations + 1)
      (hc : m'.context = s.fail kind message (some m.pc) c) : Ends s m m' .failed

theorem dispatch_ends (hs : s.caller = Library.asCaller run) (hm : m.context.Calm)
    {ending : Ending} (h : s.dispatch i (visit i m) = (m', some ending)) : Ends s m m' ending := by
  unfold dispatch at h
  split at h
  · cases h
  · dsimp only at h
    split at h
    · cases h
    · next f c hperform =>
      cases h
      have hcalm := perform_calm hs (c := (visit i m).context) hm (visit i m).pc i
      rw [Exec.after, hperform] at hcalm
      exact .failed f.kind _ c (perform_kind hperform) hcalm rfl rfl

theorem step_ends (hs : s.caller = Library.asCaller run) (hm : m.context.Calm)
    {ending : Ending} (h : s.step i m = (m', some ending)) : Ends s m m' ending := by
  rw [step_apply] at h
  split at h
  · next hcancel =>
    cases h
    exact .cancelled _ hcancel hm rfl rfl
  · split at h
    · cases h
      exact .returned hm rfl
    · split at h
      · unfold leaveLoop at h
        split at h
        · cases h
        · cases h
          exact .failed .structural _ (visit i m).context (Or.inl rfl) hm rfl rfl
      · exact dispatch_ends hs hm h

/-! ### Runs -/

/-- What the result of a run that began in a state says about it. -/
inductive Accounted (s : Setup) (c : Context) (r : RunResult) : Prop
  | success (hsuccess : r.success = true) (hcalm : r.context.Calm)
  /-- One error was reported, at the very end. -/
  | failure (hsuccess : r.success = false) (kind : DiagnosticKind) (message : String)
      (index : Option Nat) (before : Context) (hcalm : before.Calm)
      (hlast : r.context = s.fail kind message index before)
      (hresource : kind = .resource → r.iterations = s.settings.maxIterations ∧
        ∃ m, s.Takes s.settings.maxIterations { context := c } m ∧ m.pc < s.program.size)
      (hcancelled : kind = .cancelled →
        ∃ count, s.cancelAfter = some count ∧ count ≤ r.iterations)

theorem Accounted.success_eq_false_iff {r : RunResult} (h : Accounted s c r) :
    r.success = false ↔ ∃ d ∈ r.context.diagnostics, d.isError = true := by
  cases h with
  | success hsuccess hcalm =>
    simp only [hsuccess, Bool.true_eq_false, false_iff, not_exists, not_and]
    intro d hd
    simp [hcalm d hd]
  | failure hsuccess kind message index before hcalm hlast =>
    simp only [hsuccess, true_iff, hlast]
    exact ⟨_, Array.mem_push_self, rfl⟩

/-- An error that a run reports is its only one and is reported last. -/
theorem Accounted.of_isError {r : RunResult} (h : Accounted s c r) {d : Diagnostic}
    (hd : d ∈ r.context.diagnostics) (herror : d.isError = true) :
    r.errors = [d] ∧ r.context.diagnostics.back? = some d ∧
      (d.kind = .resource → r.iterations = s.settings.maxIterations ∧
        ∃ m, s.Takes s.settings.maxIterations { context := c } m ∧ m.pc < s.program.size) ∧
      (d.kind = .cancelled → ∃ count, s.cancelAfter = some count ∧ count ≤ r.iterations) := by
  cases h with
  | success _ hcalm => simp [hcalm d hd] at herror
  | failure _ kind message index before hcalm hlast hresource hcancelled =>
    have hnone : before.diagnostics.toList.filter Diagnostic.isError = [] :=
      errors_of_calm (r := ⟨true, 0, before⟩) hcalm
    rw [hlast] at hd
    obtain hd | rfl := Array.mem_push.1 hd
    · simp [hcalm d hd] at herror
    · refine ⟨?_, ?_, hresource, hcancelled⟩
      · simp [RunResult.errors, hlast, fail, Context.report, hnone, Diagnostic.isError]
      · simp [hlast, fail, Context.report]

/-- A run that ends by itself or by a return reports an error only if a break is pending outside of
all loops. -/
theorem accounted_of_conclude {ending : Ending} {c₀ : Context}
    (hending : ending = .finished ∨ ending = .returned) (hm : m.context.Calm) :
    Accounted s c₀ ⟨(s.conclude m ending).1, n, (s.conclude m ending).2⟩ := by
  cases hb : m.context.breakRequested with
  | false =>
    obtain ⟨hsuccess, hcalm⟩ := conclude_calm (s := s) hending hb hm
    exact .success hsuccess hcalm
  | true =>
    have hconclude : s.conclude m ending = s.conclude m .finished := by
      obtain rfl | rfl := hending <;> rfl
    rw [hconclude]
    simp only [conclude, hb, if_true]
    split
    · exact .failure rfl .structural _ _ m.context hm rfl (by simp) (by simp)
    · exact .success rfl (tolerant_calm.warn _ _ hm)

/-- Every run accounts for how it ended, within the limit of steps. -/
theorem runFrom_accounted (hs : s.caller = Library.asCaller run) (hc : c.Calm) :
    (s.runFrom c).iterations ≤ s.settings.maxIterations ∧ Accounted s c (s.runFrom c) := by
  obtain ⟨n, m₁, hn, ht, hend⟩ := @steps_cases s s.settings.maxIterations { context := c }
  have hcalm : m₁.context.Calm :=
    ht.keeps (P := fun m => m.context.Calm) (fun _ _ _ _ hstep hm => step_calm hs hstep hm) hc
  have hcount : m₁.iterations = n := by simpa using ht.iterations
  obtain ⟨-, hsteps⟩ | ⟨rfl, hsome, hsteps⟩ | ⟨i, m', ending, hi, hstep, hsteps⟩ := hend
  · simp only [runFrom, hsteps]
    exact ⟨hcount.trans_le hn, accounted_of_conclude (Or.inl rfl) hcalm⟩
  · simp only [runFrom, hsteps]
    refine ⟨hcount.le, .failure rfl .resource _ _ m₁.context hcalm rfl (fun _ => ?_) (by simp)⟩
    exact ⟨hcount, m₁, ht, by simpa [Program.size] using hsome⟩
  · -- The step that ends the run is one more, so the limit was not reached before it.
    have hlt : n < s.settings.maxIterations := by
      refine ht.lt_of_ended hi hsteps ?_
      obtain rfl | rfl := step_ending hstep <;> simp
    simp only [runFrom, hsteps]
    cases step_ends hs hcalm hstep with
    | returned hcalm' hcount' =>
      exact ⟨by omega, accounted_of_conclude (Or.inr rfl) hcalm'⟩
    | cancelled message hcancel _ hcount' hc' =>
      refine ⟨by omega, .failure rfl .cancelled message _ m₁.context hcalm hc' (by simp) fun _ => ?_⟩
      unfold isCancelled at hcancel
      split at hcancel
      · next count hcount₀ => exact ⟨count, hcount₀, by simpa [hcount'] using hcancel⟩
      · cases hcancel
    | failed kind message c' hkind hcalm' hcount' hc' =>
      refine ⟨by omega, .failure rfl kind message _ c' hcalm' hc' ?_ ?_⟩
      · rintro rfl
        simp at hkind
      · rintro rfl
        simp at hkind

/-- Every run comes to a result, whatever its instructions, parameters and arguments are, whatever
its calls come to and whenever the host cancels it. Within the limit of steps it either succeeds
without reporting an error, or fails and reports one error as its last diagnostic. That it ran out of
steps is said only when it took as many as it may with instructions left, that it was cancelled only
when the host did so. -/
theorem failure_reported_once (settings : Settings) (run : Library.Runner)
    (instructions : List Instruction) (functionScope : Bool) (room : Nat)
    (cancelAfter : Option Nat) (parameters : List String) (args : List Value) (heap : Heap)
    (notices : Array Diagnostic) :
    let s := Library.setupFor settings run instructions functionScope room cancelAfter
    ∃ r c, s.runNamed (parameters.map .text) args (s.start heap notices) = .ok r c ∧
      r.iterations ≤ settings.maxIterations ∧
      (r.success = false ↔ ∃ d ∈ r.context.diagnostics, d.isError = true) ∧
      ∀ d ∈ r.context.diagnostics, d.isError = true →
        r.errors = [d] ∧ r.context.diagnostics.back? = some d ∧
        (d.kind = .resource → r.iterations = settings.maxIterations ∧
          ∃ m, s.Takes settings.maxIterations { context := c } m ∧ m.pc < instructions.length) ∧
        (d.kind = .cancelled → ∃ count, cancelAfter = some count ∧ count ≤ r.iterations) := by
  intro s
  have hbound := bindNamed_texts parameters args (s.start heap notices)
  have hbegins := s.begins_bindParameters parameters args heap notices
  obtain ⟨hlimit, haccounted⟩ := runFrom_accounted (s := s) rfl hbegins.calm
  refine ⟨_, _, by rw [runNamed_apply, hbound], hlimit, haccounted.success_eq_false_iff, ?_⟩
  intro d hd herror
  obtain ⟨honly, hlast, hresource, hcancelled⟩ := haccounted.of_isError hd herror
  refine ⟨honly, hlast, fun hkind => ?_, hcancelled⟩
  obtain ⟨hcount, m, ht, hpc⟩ := hresource hkind
  refine ⟨hcount, m, ht, ?_⟩
  simpa [s, Library.setupFor, Program.size, Program.ofInstructions] using hpc

end Setup

end NodeScript
