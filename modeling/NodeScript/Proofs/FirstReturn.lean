import NodeScript.Proofs.Appending
import NodeScript.Proofs.Passes

/-!
The first return wins. A return that is carried out fills the return slot when it is empty and
leaves it alone when it is full, and nothing else writes to it. So what a run has returned is what
the first of its returns gave; a function evaluates nothing behind that one, and elsewhere the
returns behind it are ignored.
-/

namespace NodeScript

variable {s : Setup} {run : Library.Runner} {i : Instruction} {m m' m₁ : Machine} {k n : Nat}
  {c c' : Context} {v : Value} {source : String}

namespace Context

theorem setReturn_accepted (v : Value) (c : Context) : (c.setReturn v).1 = !c.returned.isSome := by
  unfold setReturn
  cases c.returned <;> rfl

theorem setReturn_returned (v : Value) (c : Context) :
    (c.setReturn v).2.returned = some (c.returned.getD v) := by
  unfold setReturn
  cases hc : c.returned with
  | none => rfl
  | some w => exact hc

theorem setReturn_results (v : Value) (c : Context) : (c.setReturn v).2.results = c.results := by
  unfold setReturn
  cases c.returned <;> rfl

theorem setReturn_loops (v : Value) (c : Context) : (c.setReturn v).2.loops = c.loops := by
  unfold setReturn
  cases c.returned <;> rfl

end Context

/-- What a return logs: the value with where it came from, and whether the slot was taken. -/
def GiveBack.output (v : Value) (source : String) (ignored : Bool) : Record :=
  [("action", .text "return"), ("source", .text source), ("value_returned", .value v)] ++
    if ignored then [("ignored", .bool true)] else []

/-- What a return does once its value is there: it fills the slot only if that is empty. -/
theorem GiveBack.run_of_ok (g : GiveBack) (h : Exec.evaluate g.value c = .ok (v, source) c') :
    ∃ c'', g.run c = .ok (GiveBack.output v source c.returned.isSome) c'' ∧
      c''.returned = some (c.returned.getD v) ∧ c''.results = c.results ∧ c''.loops = c.loops := by
  have hslot : c'.returned = c.returned := by rw [Exec.evaluated_of_ok h]
  have hresults : c'.results = c.results := by rw [Exec.evaluated_of_ok h]
  have hloops : c'.loops = c.loops := by rw [Exec.evaluated_of_ok h]
  refine ⟨(c'.setReturn v).2, ?_, ?_, ?_, ?_⟩
  · rw [g.run_apply, h]
    simp only [c'.setReturn_accepted v, hslot, output]
    cases c.returned <;> rfl
  · rw [c'.setReturn_returned v, hslot]
  · rw [c'.setReturn_results v, hresults]
  · rw [c'.setReturn_loops v, hloops]

/-- A full return slot stays as it is. -/
theorem enduring_returned :
    Enduring fun c c' => ∀ v, c.returned = some v → c'.returned = some v where
  refl _ _ := id
  trans h h' v hv := h' v (h v hv)
  addRecord _ _ _ := id
  bind _ _ _ _ := id
  share _ _ _ _ := id
  loops _ _ _ := id
  pending _ _ _ := id
  returned v c hc w hw := by simp [hc] at hw
  place _ _ _ _ := id
  report _ _ _ _ := id

namespace Setup

/-! ### Evaluations of a run -/

/-- The run from a state evaluates an instruction in the step that follows `k` others. -/
structure Evaluates (s : Setup) (c : Context) (k : Nat) (i : Instruction) (m : Machine) : Prop where
  takes : s.Takes k { context := c } m
  within : k < s.settings.maxIterations
  instruction : s.program.instructions[m.pc]? = some i
  ready : s.Ready m

/-- The evaluation is one of a return whose configuration is accepted and whose handler does not
fail: it computes a value. -/
structure Returns (s : Setup) (c : Context) (k : Nat) (i : Instruction) (m : Machine) (v : Value)
    (source : String) : Prop extends s.Evaluates c k i m where
  control : i.control = some .giveBack
  computes : ∃ g c', GiveBack.decoder i.config.get? = .valid g ∧
    Exec.evaluate g.value (visit i m).context = .ok (v, source) c'

/-- The value that the step after `k` others returns, with where it comes from. -/
def returned? (s : Setup) (c : Context) (k : Nat) : Option (Value × String) := do
  let m ← s.after? k { context := c }
  let i ← s.program.instructions[m.pc]?
  if k < s.settings.maxIterations ∧ s.isReady m ∧ i.control = some .giveBack then
    match GiveBack.decoder i.config.get? with
    | .valid g =>
      match Exec.evaluate g.value (visit i m).context with
      | .ok a _ => some a
      | .error _ _ => none
    | .invalid _ => none
  else none

theorem returned?_eq_some_iff :
    s.returned? c k = some (v, source) ↔ ∃ i m, s.Returns c k i m v source := by
  constructor
  · intro h
    obtain ⟨m, hm, h⟩ := Option.bind_eq_some_iff.1 h
    obtain ⟨i, hi, h⟩ := Option.bind_eq_some_iff.1 h
    split at h
    · next hready =>
      split at h
      · next g hg =>
        split at h
        · next a c' he =>
          cases h
          exact ⟨i, m, ⟨takes_of_after? hm, hready.1, hi, isReady_iff.1 hready.2.1⟩, hready.2.2,
            g, c', hg, he⟩
        · cases h
      · cases h
    · cases h
  · rintro ⟨i, m, h⟩
    obtain ⟨g, c', hg, he⟩ := h.computes
    simp [returned?, h.takes.after?_eq, h.instruction, h.within, isReady_iff.2 h.ready, h.control,
      hg, he]

theorem Evaluates.steps_eq (h : s.Evaluates c k i m) (hstep : s.step i m = (m', none)) :
    s.steps s.settings.maxIterations { context := c } =
      s.steps (s.settings.maxIterations - (k + 1)) m' := by
  have hle := h.within
  obtain ⟨-, heq⟩ | ⟨hlt, -⟩ :=
    (h.takes.trans (.one h.instruction hstep)).steps_eq s.settings.maxIterations
  · exact heq
  · omega

/-- A run that its limit does not stop takes a step wherever there is an instruction. -/
theorem Takes.lt_of_not_exhausted (ht : s.Takes n { context := c } m)
    (hi : s.program.instructions[m.pc]? = some i)
    (hin : (s.steps s.settings.maxIterations { context := c }).2 ≠ .exhausted) :
    n < s.settings.maxIterations := by
  obtain ⟨hle, heq⟩ | ⟨-, hexhausted⟩ := ht.steps_eq s.settings.maxIterations
  · have hpc := (Array.getElem?_eq_some_iff.1 hi).1
    refine lt_of_le_of_ne hle fun hn => hin ?_
    rw [heq, ← hn, Nat.sub_self]
    simp [steps, Program.size, hpc]
  · exact absurd hexhausted hin

/-- A run is over with the first step that does not go on. -/
theorem Takes.steps_halt {ending : Ending} (ht : s.Takes n { context := c } m)
    (hn : n < s.settings.maxIterations) (hi : s.program.instructions[m.pc]? = some i)
    (hstep : s.step i m = (m', some ending)) :
    s.steps s.settings.maxIterations { context := c } = (m', ending) := by
  obtain ⟨-, heq⟩ | ⟨hlt, -⟩ := ht.steps_eq s.settings.maxIterations
  · obtain ⟨budget, hbudget⟩ : ∃ budget, s.settings.maxIterations - n = budget + 1 :=
      ⟨s.settings.maxIterations - n - 1, by omega⟩
    rw [heq, hbudget, steps, hi]
    simp only [hstep]
  · omega

theorem runFrom_agrees (s : Setup) (c : Context) :
    (s.runFrom c).context.Agrees (s.steps s.settings.maxIterations { context := c }).1.context :=
  s.conclude_agrees _ _

/-! ### Steps that return -/

/-- A return that is carried out goes on behind it, with its record logged. -/
theorem Returns.step_eq (h : s.Returns c k i m v source) :
    ∃ m', s.step i m = (m', none) ∧
      m'.context.returned = some (m.context.returned.getD v) ∧
      m'.context.results = m.context.results.push
        (.record (resultRecord i (GiveBack.output v source m.context.returned.isSome))) := by
  obtain ⟨g, c', hg, he⟩ := h.computes
  obtain ⟨c'', hrun, hslot, hresults, -⟩ := g.run_of_ok he
  rw [step_ready h.ready, dispatch, isUnknown_of_control h.control]
  simp only [Bool.false_eq_true, if_false, perform_apply, evaluate_giveBack h.control, hg, hrun,
    h.control]
  refine ⟨_, rfl, hslot, ?_⟩
  simp only [logged, Context.addRecord, Context.addEntry, hresults]
  rfl

/-- A step that evaluates nothing leaves the return slot alone. -/
theorem step_unready (h : ¬ s.Ready m) (i : Instruction) :
    (s.step i m).1.context.returned = m.context.returned := by
  rw [step_apply]
  split
  · rfl
  · next hgoing =>
    split
    · rfl
    · next hunreturned =>
      split
      · unfold leaveLoop
        split <;> rfl
      · next hunbroken =>
        exact absurd ⟨by simpa using hgoing, by simpa using hunreturned, by simpa using hunbroken⟩ h

/-- Only a return that is carried out fills an empty slot. -/
theorem returns_of_filled (hs : s.caller = Library.asCaller run)
    (ht : s.Takes k { context := c } m) (hk : k < s.settings.maxIterations)
    (hi : s.program.instructions[m.pc]? = some i) (hm : m.context.returned = none)
    (hfull : (s.step i m).1.context.returned ≠ none) : ∃ v source, s.Returns c k i m v source := by
  obtain ⟨v, -, ⟨-, j, hj, hcontrol, g, source, c', hg, he⟩, -⟩ :=
    (step_slot hs hi hm).resolve_left hfull
  obtain rfl := Option.some.inj (hi.symm.trans hj)
  have hready : s.Ready m := by
    by_contra hnot
    exact hfull ((step_unready hnot i).trans hm)
  exact ⟨v, source, ⟨ht, hk, hi, hready⟩, hcontrol, g, c', hg, he⟩

/-- The slot is empty until a return is carried out. -/
theorem Takes.unreturned (hs : s.caller = Library.asCaller run) (hc : c.returned = none)
    (ht : s.Takes n { context := c } m) (hn : n ≤ s.settings.maxIterations) :
    m.context.returned = none ∨ ∃ k < n, ∃ i m₁ v source, s.Returns c k i m₁ v source := by
  induction n generalizing m with
  | zero =>
    cases ht
    exact Or.inl hc
  | succ n ih =>
    obtain ⟨m₁, i, ht₁, hi, hstep⟩ := ht.last
    obtain hnone | ⟨k, hk, hreturns⟩ := ih ht₁ (by omega)
    · by_cases hm : m.context.returned = none
      · exact Or.inl hm
      · obtain ⟨v, source, hreturns⟩ :=
          returns_of_filled hs ht₁ (by omega) hi hnone (by rwa [hstep])
        exact Or.inr ⟨n, by omega, i, m₁, v, source, hreturns⟩
    · exact Or.inr ⟨k, by omega, hreturns⟩

/-- In a function whose return slot is full the rest of a run logs nothing. -/
theorem steps_full (hscope : s.functionScope = true) (hm : m.context.returned.isSome)
    (budget : Nat) : (s.steps budget m).1.context.results = m.context.results := by
  cases budget with
  | zero => rfl
  | succ budget =>
    unfold steps
    cases s.program.instructions[m.pc]? with
    | none => rfl
    | some i =>
      simp only [step_apply, hscope, hm, Bool.and_self, if_true]
      cases s.isCancelled m <;> rfl

/-! ### Runs -/

/-- What has been returned behind a return is not changed by the rest of the run, which only adds to
the log. -/
theorem Evaluates.endures (hs : s.caller = Library.asCaller run) (h : s.Evaluates c k i m)
    (hstep : s.step i m = (m', none)) (hm' : m'.context.returned = some v) :
    (s.runFrom c).context.returned = some v ∧
      m'.context.results.toList <+: (s.runFrom c).context.results.toList := by
  have hagrees := s.runFrom_agrees c
  rw [h.steps_eq hstep] at hagrees
  rw [hagrees.returned, hagrees.results]
  exact ⟨enduring_returned.steps hs _ m' v hm', (enduring_continues.steps hs _ m').results⟩

/-- A state of a run behind a return has its value in the slot. -/
theorem Evaluates.kept (hs : s.caller = Library.asCaller run) (h : s.Evaluates c k i m)
    (hstep : s.step i m = (m', none)) (hm' : m'.context.returned = some v) (hk : k < n)
    (ht : s.Takes n { context := c } m₁) : m₁.context.returned = some v := by
  have hrest := (h.takes.trans (.one h.instruction hstep)).rest ht hk
  exact hrest.keeps (P := fun m => m.context.returned = some v)
    (fun i m m₂ _ hnext hm => by simpa [hnext] using enduring_returned.step hs i m v hm) hm'

/-- A run that has returned carried out a return. -/
theorem returns_of_runFrom (hs : s.caller = Library.asCaller run) (hc : s.Begins c)
    (h : (s.runFrom c).context.returned ≠ none) : ∃ k i m v source, s.Returns c k i m v source := by
  obtain ⟨n, m₁, hn, ht, hend⟩ := @steps_cases s s.settings.maxIterations { context := c }
  obtain hnone | ⟨k, -, hreturns⟩ := ht.unreturned hs hc.returned hn
  · refine absurd ?_ h
    obtain ⟨-, hsteps⟩ | ⟨-, -, hsteps⟩ | ⟨i, m', ending, hi, hstep, hsteps⟩ := hend
    · rw [runFrom_returned_eq hsteps, hnone]
    · rw [runFrom_returned_eq hsteps, hnone]
    · -- A return that fills the slot does not end the run.
      have hslot := step_slot (i := i) hs hi hnone
      rw [hstep] at hslot
      obtain hslot | ⟨-, -, -, hgoes, -⟩ := hslot
      · rw [runFrom_returned_eq hsteps, hslot]
      · cases hgoes
  · exact ⟨k, hreturns⟩

/-- A run has returned just when it carried out a return, and then it is the first one that counts:
the run's value is the one that this return computed. In a function nothing is evaluated behind it
and its record is the last in the log. In a file later returns find the slot full and leave it as it
is, and their records, which stay in the log, say that they were ignored. -/
theorem first_return_wins {s : Setup} (hs : s.OfList) {c : Context} (hc : s.Begins c) :
    ((s.runFrom c).context.returned.isSome ↔ ∃ k i m v source, s.Returns c k i m v source) ∧
    ∀ k i m v source, s.Returns c k i m v source →
      (∀ j < k, ∀ i' m' v' source', ¬ s.Returns c j i' m' v' source') →
      (s.runFrom c).context.returned = some v ∧ (s.runFrom c).returnValue = v ∧
      (s.functionScope = true →
        (∀ j > k, ∀ i' m', ¬ s.Evaluates c j i' m') ∧
        (s.runFrom c).context.results.back? =
          some (.record (resultRecord i (GiveBack.output v source false)))) ∧
      (s.functionScope = false →
        ∀ j > k, ∀ i' m' v' source', s.Returns c j i' m' v' source' →
          m'.context.returned = some v ∧ (s.step i' m').1.context.returned = some v ∧
          (s.step i' m').1.context.results = m'.context.results.push
            (.record (resultRecord i' (GiveBack.output v' source' true))) ∧
          (s.step i' m').1.context.results.toList <+: (s.runFrom c).context.results.toList) := by
  obtain ⟨run, hcaller⟩ := hs.caller
  refine ⟨⟨fun h => returns_of_runFrom hcaller hc (by simpa [Option.isSome_iff_ne_none] using h),
    ?_⟩, ?_⟩
  · rintro ⟨k, i, m, v, source, h⟩
    obtain ⟨m₁, hstep, hslot, -⟩ := h.step_eq
    simp [(h.toEvaluates.endures hcaller hstep hslot).1]
  · intro k i m v source h hfirst
    -- Before the first return the slot is empty, so this one fills it.
    have hempty : m.context.returned = none :=
      (h.takes.unreturned hcaller hc.returned h.within.le).resolve_right
        fun ⟨j, hj, i', m', v', source', h'⟩ => hfirst j hj i' m' v' source' h'
    obtain ⟨m₁, hstep, hslot, hresults⟩ := h.step_eq
    rw [hempty] at hslot hresults
    have hreturned := (h.toEvaluates.endures hcaller hstep hslot).1
    have hkept : ∀ {j m'}, k < j → s.Takes j { context := c } m' → m'.context.returned = some v :=
      fun hj ht => h.toEvaluates.kept hcaller hstep hslot hj ht
    refine ⟨hreturned, by simp [RunResult.returnValue, hreturned, Value.ofOption], ?_, ?_⟩
    · intro hscope
      constructor
      · intro j hj i' m' he
        have hunreturned := he.ready.unreturned
        simp [hkept hj he.takes, hscope] at hunreturned
      · rw [(s.runFrom_agrees c).results, h.steps_eq hstep,
          steps_full hscope (by simp [hslot]), hresults]
        simp
    · intro _ j hj i' m' v' source' h'
      obtain ⟨m₂, hstep', hslot', hresults'⟩ := h'.step_eq
      have hm' := hkept hj h'.takes
      rw [hm'] at hslot' hresults'
      rw [hstep']
      exact ⟨hm', hslot', hresults', (h'.toEvaluates.endures hcaller hstep' hslot').2⟩

/-- A loop of two passes that returns its counter in each of them. -/
def returningTwice (functionScope : Bool) : Setup :=
  Library.setupFor {} (fun _ key _ _ _ => .error (.call (.noLookup key)))
    [{ tag := "forNumeric",
       config := .ofList [("startValue", .text "1"), ("endValue", .text "2")] },
     { tag := "return",
       config := .ofList [("useVariableForResult", .bool true), ("returnVariable", .text "i")] },
     { tag := "endFor" }] functionScope

theorem returningTwice_begins (functionScope : Bool) :
    (returningTwice functionScope).Begins ((returningTwice functionScope).start {} #[]) :=
  begins_bindParameters (returningTwice functionScope) [] [] {} #[]

/-- The first step is not a return and the second one is. -/
theorem returningTwice_first (functionScope : Bool) :
    (∃ i m, (returningTwice functionScope).Returns ((returningTwice functionScope).start {} #[]) 1
      i m (.int 1) "variable(i)") ∧
    ∀ j < 1, ∀ i m v source, ¬ (returningTwice functionScope).Returns
      ((returningTwice functionScope).start {} #[]) j i m v source := by
  constructor
  · exact returned?_eq_some_iff.1 (by cases functionScope <;> decide +kernel)
  · intro j hj i m v source h
    obtain rfl : j = 0 := by omega
    have hsome := returned?_eq_some_iff.2 ⟨i, m, h⟩
    have hnone : (returningTwice functionScope).returned?
        ((returningTwice functionScope).start {} #[]) 0 = none := by
      cases functionScope <;> decide +kernel
    cases hsome.symm.trans hnone

/-- The loop returns 1 in either scope. A file goes on to the second return, which is ignored; in a
function the record of the first one is the last. -/
theorem returningTwice_keeps_first :
    ((returningTwice false).runFrom ((returningTwice false).start {} #[])).returnValue = .int 1 ∧
    (∃ i m, (returningTwice false).Returns ((returningTwice false).start {} #[]) 3 i m (.int 2)
        "variable(i)" ∧
      ((returningTwice false).step i m).1.context.results = m.context.results.push
        (.record (resultRecord i (GiveBack.output (.int 2) "variable(i)" true)))) ∧
    ((returningTwice true).runFrom ((returningTwice true).start {} #[])).returnValue = .int 1 ∧
    ∃ i, ((returningTwice true).runFrom
        ((returningTwice true).start {} #[])).context.results.back? =
      some (.record (resultRecord i (GiveBack.output (.int 1) "variable(i)" false))) := by
  have hlist (functionScope : Bool) : (returningTwice functionScope).OfList :=
    ⟨_, _, _, _, _, _, rfl⟩
  obtain ⟨⟨i, m, h⟩, hnone⟩ := returningTwice_first false
  obtain ⟨i', m', h'⟩ : ∃ i m, (returningTwice false).Returns
      ((returningTwice false).start {} #[]) 3 i m (.int 2) "variable(i)" :=
    returned?_eq_some_iff.1 (by decide +kernel)
  obtain ⟨-, hvalue, -, hlater⟩ :=
    (first_return_wins (hlist false) (returningTwice_begins false)).2 _ i m _ _ h hnone
  obtain ⟨-, -, hrecord, -⟩ := hlater rfl 3 (by decide) i' m' _ _ h'
  obtain ⟨⟨i₁, m₁, h₁⟩, hnone₁⟩ := returningTwice_first true
  obtain ⟨-, hvalue₁, hlast, -⟩ :=
    (first_return_wins (hlist true) (returningTwice_begins true)).2 _ i₁ m₁ _ _ h₁ hnone₁
  exact ⟨hvalue, ⟨i', m', h', hrecord⟩, hvalue₁, i₁, (hlast rfl).2⟩

end Setup

end NodeScript
