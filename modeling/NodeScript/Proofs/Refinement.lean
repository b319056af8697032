import NodeScript.Proofs.Following

/-!
A flat run comes to what its script means. The steps that follow an interpretation are the steps of
the run, as long as these stay within their limit and are not cancelled; what the run reports at its
end touches nothing that it is judged by.
-/

namespace NodeScript

variable {s : Setup} {i : Instruction} {m m' m₁ : Machine} {w : Walk} {n pc fuel : Nat}
  {loops : LoopStack} {c : Context}

namespace Setup

variable {budget : Nat} {ending : Ending}

/-- A run goes through all the steps that there are, as far as its limit allows. -/
theorem Takes.steps_eq (ht : s.Takes n m m') (budget : Nat) :
    (n ≤ budget ∧ s.steps budget m = s.steps (budget - n) m') ∨
      (budget < n ∧ (s.steps budget m).2 = .exhausted) := by
  induction ht generalizing budget with
  | refl => exact Or.inl ⟨Nat.zero_le _, rfl⟩
  | more hi hstep _ ih =>
    cases budget with
    | zero =>
      have hlt := (Array.getElem?_eq_some_iff.1 hi).1
      exact Or.inr ⟨Nat.succ_pos _, by simp [steps, Program.size, hlt]⟩
    | succ budget =>
      simp only [steps, hi, hstep, Nat.add_sub_add_right, Nat.add_le_add_iff_right,
        Nat.add_lt_add_iff_right]
      exact ih budget

/-- What is reported at the end touches nothing that a run is judged by. -/
theorem conclude_agrees (s : Setup) (m : Machine) (ending : Ending) :
    (s.conclude m ending).2.Agrees m.context := by
  unfold conclude
  split
  · exact ⟨rfl, rfl, rfl, rfl⟩
  · exact ⟨rfl, rfl, rfl, rfl⟩
  all_goals
    split
    · split <;> exact ⟨rfl, rfl, rfl, rfl⟩
    · exact ⟨rfl, rfl, rfl, rfl⟩

theorem conclude_success (hending : ending = .finished ∨ ending = .returned) :
    (s.conclude m ending).1 = !(m.context.loops.isEmpty && m.context.breakRequested) := by
  obtain rfl | rfl := hending <;> unfold conclude <;>
    cases m.context.loops.isEmpty <;> cases m.context.breakRequested <;> rfl

theorem conclude_mem {d : Diagnostic} (hd : d ∈ m.context.diagnostics) :
    d ∈ (s.conclude m ending).2.diagnostics := by
  unfold conclude
  split
  · exact hd
  · exact Array.mem_push_of_mem _ hd
  all_goals
    split
    · split
      · exact Array.mem_push_of_mem _ hd
      · exact hd
    · exact Array.mem_push_of_mem _ hd

/-- A run that reaches its limit reports it. -/
theorem exists_resource (h : (s.steps s.settings.maxIterations { context := c }).2 = .exhausted) :
    ∃ d ∈ (s.runFrom c).context.diagnostics, d.kind = .resource := by
  rcases hsteps : s.steps s.settings.maxIterations { context := c } with ⟨m, ending⟩
  rw [hsteps] at h
  cases h
  simp only [runFrom, hsteps, conclude, fail, Context.report]
  exact ⟨_, Array.mem_push_self, rfl⟩

section Ended

variable (hin : (s.steps s.settings.maxIterations { context := c }).2 ≠ .exhausted)
  (ht : s.Takes n { context := c } m')

include hin ht

/-- What a run within its limit comes to when its last step ends it. -/
theorem runFrom_ended (hi : s.program.instructions[m'.pc]? = some i)
    (hstep : s.step i m' = (m₁, some ending)) :
    (s.runFrom c).success = (s.conclude m₁ ending).1 ∧
      (s.runFrom c).context.Agrees m₁.context := by
  obtain ⟨-, heq⟩ | ⟨-, heq⟩ := ht.steps_eq s.settings.maxIterations
  · have hend : s.steps (s.settings.maxIterations - n) m' = (m₁, ending) := by
      rw [heq] at hin
      have hlt := (Array.getElem?_eq_some_iff.1 hi).1
      cases hbudget : s.settings.maxIterations - n with
      | zero => simp [hbudget, steps, Program.size, hlt] at hin
      | succ budget => simp [steps, hi, hstep]
    simp only [runFrom, heq, hend, true_and]
    exact s.conclude_agrees m₁ ending
  · exact absurd heq hin

/-- What it comes to when control has passed the last instruction. -/
theorem runFrom_finished (hend : s.program.instructions[m'.pc]? = none) :
    (s.runFrom c).success = !(m'.context.loops.isEmpty && m'.context.breakRequested) ∧
      (s.runFrom c).context.Agrees m'.context := by
  have hpc : ¬ m'.pc < s.program.size := by simpa [Program.size] using hend
  obtain ⟨-, heq⟩ | ⟨-, heq⟩ := ht.steps_eq s.settings.maxIterations
  · have hsteps : s.steps (s.settings.maxIterations - n) m' = (m', .finished) := by
      cases s.settings.maxIterations - n with
      | zero => simp [steps, hpc]
      | succ budget => simp [steps, hend]
    simp only [runFrom, heq, hsteps]
    exact ⟨conclude_success (Or.inl rfl), s.conclude_agrees m' .finished⟩
  · exact absurd heq hin

/-- A break that finds no loop makes the run fail, at the next instruction or at the end. -/
theorem runFrom_stray (hcancel : s.cancelAfter = none)
    (hm : Mirrors m' { w with context := w.context.requestBreak } pc [])
    (hw : w.Ready s.functionScope) :
    (s.runFrom c).success = false ∧ (s.runFrom c).context.Agrees w.context := by
  cases hi : s.program.instructions[m'.pc]? with
  | none =>
    have hrequest : w.context.requestBreak.Agrees w.context := ⟨rfl, rfl, rfl, rfl⟩
    obtain ⟨hsuccess, hagrees⟩ := runFrom_finished hin ht hi
    refine ⟨?_, hagrees.trans (hm.agrees.trans hrequest)⟩
    rw [hsuccess, hm.breakRequested_eq, hm.loops_eq]
    rfl
  | some i =>
    obtain ⟨m₁, hstep, ha⟩ := step_stray (i := i) hcancel hm hw
    obtain ⟨hsuccess, hagrees⟩ := runFrom_ended hin ht hi hstep
    exact ⟨hsuccess, hagrees.trans ha⟩

/-- A function that has returned succeeds, whatever loops it was in. -/
theorem runFrom_returned (hcancel : s.cancelAfter = none) (hm : Mirrors m' w pc loops)
    (hscope : s.functionScope = true) (hreturned : w.context.returned.isSome = true)
    (hbreak : w.context.breakRequested = false) :
    (s.runFrom c).success = true ∧ (s.runFrom c).context.Agrees w.context := by
  have hpending : m'.context.breakRequested = false := hm.breakRequested_eq.trans hbreak
  cases hi : s.program.instructions[m'.pc]? with
  | none =>
    obtain ⟨hsuccess, hagrees⟩ := runFrom_finished hin ht hi
    exact ⟨by simp [hsuccess, hpending], hagrees.trans hm.agrees⟩
  | some i =>
    have hstep := step_return (i := i) hcancel hm hscope hreturned
    have hvisit : (visit i m').context.Agrees m'.context := ⟨rfl, rfl, rfl, rfl⟩
    obtain ⟨hsuccess, hagrees⟩ := runFrom_ended hin ht hi hstep
    refine ⟨?_, hagrees.trans (hvisit.trans hm.agrees)⟩
    have hb : (visit i m').context.breakRequested = false := hpending
    simp [hsuccess, conclude_success (Or.inr rfl), hb]

end Ended

/-- A run that reports no cancellation is the run that cannot be cancelled. -/
theorem steps_uncancelled
    (h : ∀ d ∈ (s.steps budget m).1.context.diagnostics, d.kind ≠ .cancelled) :
    { s with cancelAfter := none }.steps budget m = s.steps budget m := by
  induction budget generalizing m with
  | zero => rfl
  | succ budget ih =>
    cases hi : s.program.instructions[m.pc]? with
    | none => simp [steps, hi]
    | some i =>
      by_cases hc : s.isCancelled m = true
      · -- The cancelled step would be the last, and its report would stand.
        simp only [steps, hi, step, hc, if_true, fail, Context.report] at h
        exact absurd rfl (h _ Array.mem_push_self)
      · have hstep : { s with cancelAfter := none }.step i m = s.step i m := by
          simp only [step_apply, hc]
          rfl
        simp only [steps, hi] at h ⊢
        rw [hstep]
        rcases hnext : s.step i m with ⟨m', _ | ending⟩
        · rw [hnext] at h
          exact ih h
        · rfl

theorem runFrom_uncancelled
    (h : ∀ d ∈ (s.runFrom c).context.diagnostics, d.kind ≠ .cancelled) :
    { s with cancelAfter := none }.runFrom c = s.runFrom c := by
  have hsteps : { s with cancelAfter := none }.steps s.settings.maxIterations { context := c } =
      s.steps s.settings.maxIterations { context := c } :=
    steps_uncancelled fun d hd => h d (conclude_mem hd)
  simp only [runFrom, hsteps]
  rfl

end Setup

/-- A run that follows an interpretation, and stays within its limit, comes to the same. -/
theorem Follows.runFrom {result : Option (Signal × Walk)} (hcancel : s.cancelAfter = none)
    (h : Follows s { context := c } s.program.size [] fuel result)
    (hfuel : s.settings.maxIterations < fuel)
    (hlimit : ∀ d ∈ (s.runFrom c).context.diagnostics, d.kind ≠ .resource) :
    ∃ signal w, result = some (signal, w) ∧ (s.runFrom c).success = signal.succeeds ∧
      (s.runFrom c).context.Agrees w.context := by
  have hin : (s.steps s.settings.maxIterations { context := c }).2 ≠ .exhausted := by
    intro hexhausted
    obtain ⟨d, hd, hk⟩ := Setup.exists_resource hexhausted
    exact hlimit d hd hk
  cases h with
  | outlasts ht hn =>
    obtain ⟨hle, -⟩ | ⟨-, heq⟩ := ht.steps_eq s.settings.maxIterations
    · omega
    · exact absurd heq hin
  | @onward n m' w ht hm hw =>
    have hend : s.program.instructions[m'.pc]? = none := by simp [hm.pc_eq, Program.size]
    have hpending : m'.context.breakRequested = false :=
      hm.breakRequested_eq.trans hw.breakRequested
    obtain ⟨hsuccess, hagrees⟩ := Setup.runFrom_finished hin ht hend
    exact ⟨_, w, rfl, by simp [hsuccess, hpending, Signal.succeeds], hagrees.trans hm.agrees⟩
  | @broke n pc m' w ht hm hpc hw =>
    exact ⟨_, w, rfl, Setup.runFrom_stray hin ht hcancel hm hw⟩
  | @returned n pc m' w inner ht hm hscope hreturned hbreak =>
    exact ⟨_, w, rfl, Setup.runFrom_returned hin ht hcancel hm hscope hreturned hbreak⟩
  | @failed n m' m'' i w ht hi hstep ha =>
    obtain ⟨hsuccess, hagrees⟩ := Setup.runFrom_ended hin ht hi hstep
    exact ⟨_, w, rfl, hsuccess, hagrees.trans ha⟩

namespace Script

variable {script : Script} {run : Library.Runner}

/-- A run that cannot be cancelled, and that stays within its limit, comes to what the script
means. -/
theorem execute_host (hs : s.caller = Library.asCaller run) (hcancel : s.cancelAfter = none)
    (hprogram : s.program = .ofInstructions script.flatten) (hc : s.Begins c)
    (hlimit : ∀ d ∈ (s.runFrom c).context.diagnostics, d.kind ≠ .resource)
    (hfuel : s.settings.maxIterations < fuel) :
    ∃ final, script.execute s.host fuel c = some ((s.runFrom c).success, final) ∧
      (s.runFrom c).context.Agrees final := by
  have hmirrors : Mirrors { context := c } { context := c } 0 [] :=
    ⟨rfl, rfl, c.position, c.label, by rw [← hc.loops]⟩
  have hready : Walk.Ready s.functionScope { context := c } :=
    ⟨hc.breakRequested, fun _ => hc.returned⟩
  have hstands : Stands script.flatten 0 script.flatten := ⟨[], [], by simp, rfl⟩
  have hsize : s.program.size = 0 + script.size := by
    simp [hprogram, Program.size, Program.ofInstructions, size]
  have hfollows : Follows s { context := c } s.program.size [] fuel
      (script.run s.host fuel 0 { context := c }) := by
    rw [hsize]
    exact followed hs hcancel hprogram script 0 _ _ _ hstands hmirrors hready (by simp)
  obtain ⟨signal, w, hresult, hsuccess, hagrees⟩ := hfollows.runFrom hcancel hfuel hlimit
  exact ⟨w.context, by rw [execute, hresult, hsuccess]; rfl, hagrees⟩

/-- A run of the flat list of a script that reaches no limit and is not cancelled comes to what the
script means: it succeeds or fails as the interpretation does, and it leaves the same variables,
results and return value. No loop of the interpretation needs more rounds than the run may take
steps. -/
theorem runFrom_flatten (script : Script) (settings : Settings) (run : Library.Runner)
    (functionScope : Bool) (room : Nat) (cancelAfter : Option Nat) {c : Context} {fuel : Nat}
    (hc : (Library.setupFor settings run script.flatten functionScope room cancelAfter).Begins c)
    (hended : ∀ d ∈ ((Library.setupFor settings run script.flatten functionScope room
      cancelAfter).runFrom c).context.diagnostics, d.kind ≠ .resource ∧ d.kind ≠ .cancelled)
    (hfuel : settings.maxIterations < fuel) :
    ∃ final, script.execute ⟨settings, functionScope, Library.asCaller run⟩ fuel c =
        some (((Library.setupFor settings run script.flatten functionScope room
          cancelAfter).runFrom c).success, final) ∧
      ((Library.setupFor settings run script.flatten functionScope room
        cancelAfter).runFrom c).context.Agrees final := by
  have hrun := Setup.runFrom_uncancelled fun d hd => (hended d hd).2
  rw [← hrun] at hended ⊢
  exact execute_host (s := { Library.setupFor settings run script.flatten functionScope room
    cancelAfter with cancelAfter := none }) rfl rfl rfl hc (fun d hd => (hended d hd).1) hfuel

/-- A loop that counts up to two around an endless one: the endless loop is left by a break while
the count is zero, and by a return when it is one. -/
def search : Script :=
  .loop .numeric
    ⟨{ tag := "forNumeric", config := .ofList [("endValue", .text "2")] }, by decide +kernel⟩
    (.loop .whileLoop ⟨{ tag := "while" }, by decide +kernel⟩
      (.choice
        ⟨{ tag := "if", config := .ofList [("conditionLhsType", .text "variable"),
            ("conditionLhsValue", .text "i"), ("conditionRhsValue", .text "1")] },
          by decide +kernel⟩
        (.act { tag := "return", config := .ofList [("returnValue", .text "found")] }
          (by decide +kernel) .done)
        ⟨{ tag := "else" }, by decide +kernel⟩
        (.act { tag := "break" } (by decide +kernel) .done)
        ⟨{ tag := "endIf" }, by decide +kernel⟩
        .done)
      ⟨{ tag := "endWhile" }, by decide +kernel⟩
      .done)
    ⟨{ tag := "endFor" }, by decide +kernel⟩
    .done

/-- No function can be called. -/
def alone : Library.Runner := fun _ key _ _ _ => .error (.call (.noLookup key))

def searchSetup : Setup := Library.setupFor {} alone search.flatten true

/-- The search succeeds with the value that it returns. -/
theorem search_agrees :
    (∀ d ∈ (searchSetup.runFrom (searchSetup.start {} #[])).context.diagnostics,
      d.kind ≠ .resource ∧ d.kind ≠ .cancelled) ∧
    ∃ final, search.execute ⟨{}, true, Library.asCaller alone⟩ 10001 (searchSetup.start {} #[]) =
        some (true, final) ∧ final.returned = some (.text "found") ∧
      (searchSetup.runFrom (searchSetup.start {} #[])).context.Agrees final := by
  have hbegins : searchSetup.Begins (searchSetup.start {} #[]) :=
    Setup.begins_bindParameters searchSetup [] [] {} #[]
  have hended : ∀ d ∈ (searchSetup.runFrom (searchSetup.start {} #[])).context.diagnostics,
      d.kind ≠ .resource ∧ d.kind ≠ .cancelled := by
    decide +kernel
  have hfuel : ({} : Settings).maxIterations < 10001 := Nat.lt_succ_self 10000
  -- Rewritten, since unfolding the setup below a projection would evaluate the run.
  have hsetup : Library.setupFor {} alone search.flatten true nestingLimit none = searchSetup := rfl
  have hrefined := @runFrom_flatten search {} alone true nestingLimit none
    (searchSetup.start {} #[]) 10001
  rw [hsetup] at hrefined
  obtain ⟨final, hexecute, hagrees⟩ := hrefined hbegins hended hfuel
  have hsuccess : (searchSetup.runFrom (searchSetup.start {} #[])).success = true := by
    decide +kernel
  have hreturned : (searchSetup.runFrom (searchSetup.start {} #[])).context.returned =
      some (.text "found") := by
    decide +kernel
  rw [hsuccess] at hexecute
  exact ⟨hended, final, hexecute, hagrees.returned.symm.trans hreturned, hagrees⟩

end Script

end NodeScript
