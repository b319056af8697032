import NodeScript.Proofs.Refinement

/-!
Functions that return. A return fills its slot in one step and is noticed at the top of the next
one, so whether the run then succeeds depends on whether the limit leaves room for that step.
-/

namespace NodeScript

variable {s : Setup} {run : Library.Runner} {i : Instruction} {m m' : Machine} {pc pc' n : Nat}
  {c c' : Context} {f : Fault} {v : Value}

/-! ### Reports -/

/-- No error has been reported. -/
def Context.Calm (c : Context) : Prop :=
  ∀ d ∈ c.diagnostics, d.isError = false

theorem tolerant_calm : Tolerant fun c c' => c.Calm → c'.Calm where
  refl _ h := h
  trans h h' hc := h' (h hc)
  warn message c h d hd := by
    obtain hd | rfl := Array.mem_push.1 hd
    · exact h d hd
    · rfl
  addRecord _ _ h := h
  bind _ _ _ h := h
  share _ _ _ h := h

theorem errors_of_calm {r : RunResult} (h : r.context.Calm) : r.errors = [] := by
  unfold RunResult.errors
  rw [List.filter_eq_nil_iff]
  intro d hd
  simp [h d (by simpa using hd)]

/-! ### Evaluating a return -/

theorem GiveBack.run_apply (g : GiveBack) (c : Context) :
    g.run c =
      match Exec.evaluate g.value c with
      | .error f c' => .error f c'
      | .ok (v, source) c' =>
        .ok ([("action", .text "return"), ("source", .text source), ("value_returned", .value v)] ++
          if (c'.setReturn v).1 then [] else [("ignored", .bool true)]) (c'.setReturn v).2 := by
  simp only [GiveBack.run, bind, EStateM.bind]
  cases Exec.evaluate g.value c <;> rfl

/-- Evaluating leaves the return slot alone. -/
theorem Exec.evaluate_returned {α : Type} (eval : Scope → Eval α) (c : Context) :
    (Exec.after (Exec.evaluate eval) c).returned = c.returned := by
  have h := (tolerant_returned.coupling c).evaluate eval c c ⟨rfl, rfl⟩
  unfold Exec.after
  generalize Exec.evaluate eval c = r at h
  cases h with
  | ok a h => exact h.2
  | error f h => exact h.2

/-- The instruction is a return that, evaluated in this state, gives this value. -/
def Instruction.Gives (i : Instruction) (c : Context) (v : Value) : Prop :=
  i.control = some .giveBack ∧ ∃ g source c', GiveBack.decoder i.config.get? = .valid g ∧
    Exec.evaluate g.value c = .ok (v, source) c'

/-- Evaluating a return: its configuration may be refused, or else its handler runs. -/
theorem evaluate_giveBack (hi : i.control = some .giveBack) (start : String) (caller : Caller)
    (c : Context) :
    i.evaluate start caller c =
      match GiveBack.decoder i.config.get? with
      | .invalid problems => .ok .nothing (i.refuse problems c)
      | .valid g =>
        match g.run c with
        | .ok r c' => .ok (.record r) c'
        | .error f c' => .error f c' := by
  rw [Instruction.evaluate_of_control hi rfl]
  simp only [Handler.decoder, Functor.map]
  cases GiveBack.decoder i.config.get? with
  | invalid problems => rfl
  | valid g =>
    simp only [Checked.map, Handler.run, bind, EStateM.bind]
    cases g.run c <;> rfl

/-- What an evaluation makes of an empty return slot: only a return fills it, and then it does not
fail. -/
theorem evaluate_slot (hc : c.returned = none) (start : String) (run : Library.Runner) :
    (Exec.after (i.evaluate start (Library.asCaller run)) c).returned = none ∨
      ∃ v reply c', i.evaluate start (Library.asCaller run) c = .ok reply c' ∧
        c'.returned = some v ∧ i.Gives c v := by
  by_cases hi : i.control = some .giveBack
  · rw [Exec.after, evaluate_giveBack hi]
    cases hd : GiveBack.decoder i.config.get? with
    | invalid problems => exact Or.inl hc
    | valid g =>
      have hkeep := Exec.evaluate_returned g.value c
      rw [hc, Exec.after] at hkeep
      simp only [g.run_apply]
      cases he : Exec.evaluate g.value c with
      | error f c' =>
        rw [he] at hkeep
        exact Or.inl hkeep
      | ok a c' =>
        obtain ⟨v, source⟩ := a
        rw [he] at hkeep
        refine Or.inr ⟨v, _, _, rfl, ?_, hi, g, source, c', hd, he⟩
        simp [Context.setReturn, show c'.returned = none from hkeep]
  · left
    rw [← hc]
    exact tolerant_returned.instruction (fun _ _ => rfl) (fun h => absurd h hi) start run c

namespace Setup

/-! ### Steps -/

/-- A step in which a return is carried out that fills the empty slot with a value. -/
def GivesBack (s : Setup) (m : Machine) (v : Value) : Prop :=
  m.context.returned = none ∧ ∃ i, s.program.instructions[m.pc]? = some i ∧
    i.Gives (visit i m).context v

/-- A step of a function that goes on finds the return slot empty. -/
theorem step_unreturned (hscope : s.functionScope = true) (h : s.step i m = (m', none)) :
    m.context.returned = none := by
  rw [step_apply, hscope, Bool.and_true] at h
  split at h
  · cases h
  · split at h
    · cases h
    · next hr => simpa using hr

/-- Transitions change loops and variables only. -/
theorem next_tolerant {R : Context → Context → Prop} (hR : Tolerant R)
    (hloops : ∀ (loops : LoopStack) (c : Context), R c (c.withLoops loops)) (p : Program) (pc : Nat)
    (control : Control) (reply : Reply) (c : Context) :
    R c (Exec.after (p.next pc control reply) c) := by
  have hmoves := @Program.next_moves p pc control reply c
  unfold Exec.after
  cases hn : p.next pc control reply c with
  | ok pc' c' =>
    rw [hn] at hmoves
    obtain ⟨loops, bindings, -, rfl⟩ := hmoves
    exact hR.trans (hloops loops c) (hR.setVariables bindings (c.withLoops loops))
  | error f c' =>
    rw [hn] at hmoves
    rw [hmoves.1]
    exact hR.refl c

theorem logged_tolerant {R : Context → Context → Prop} (hR : Tolerant R) (i : Instruction)
    (reply : Reply) (c : Context) : R c (logged i reply c) := by
  cases reply with
  | record output => exact hR.addRecord _ c
  | nothing | truth | entry => exact hR.refl c

/-- Performing an instruction keeps a relation that holds across all that it may do, whether it fails
or not. -/
theorem perform_tolerant {R : Context → Context → Prop} (hR : Tolerant R)
    (hloops : ∀ (loops : LoopStack) (c : Context), R c (c.withLoops loops))
    (hbreak : ∀ c, R c (Context.requestBreak c))
    (hreturn : ∀ v (c : Context), c.returned = none → R c { c with returned := some v })
    (hs : s.caller = Library.asCaller run) (pc : Nat) (i : Instruction) (c : Context) :
    R c (Exec.after (s.perform pc i) c) := by
  have heval := hR.instruction (i := i) (fun _ => hbreak) (fun _ => hreturn)
    s.settings.functionPrefix run c
  rw [Exec.after, perform_apply, hs]
  rw [Exec.after] at heval
  cases he : i.evaluate s.settings.functionPrefix (Library.asCaller run) c with
  | error f c' => simpa [he] using heval
  | ok reply c' =>
    rw [he] at heval
    have hlogged := hR.trans heval (logged_tolerant hR i reply c')
    cases hi : i.control with
    | none => exact hlogged
    | some control => exact hR.trans hlogged (next_tolerant hR hloops _ pc control reply _)

/-- What performing an instruction makes of an empty return slot. -/
theorem perform_slot (hs : s.caller = Library.asCaller run) (hc : c.returned = none) (pc : Nat)
    (i : Instruction) :
    (Exec.after (s.perform pc i) c).returned = none ∨
      ∃ v c', s.perform pc i c = .ok (pc + 1) c' ∧ c'.returned = some v ∧ i.Gives c v ∧
        c'.breakRequested = c.breakRequested := by
  have hslot := evaluate_slot (i := i) hc s.settings.functionPrefix run
  rw [Exec.after, perform_apply, hs]
  rcases hslot with hnone | ⟨v, reply, c', he, hv, hgives⟩
  · left
    rw [Exec.after] at hnone
    cases he : i.evaluate s.settings.functionPrefix (Library.asCaller run) c with
    | error f c' => simpa [he] using hnone
    | ok reply c' =>
      rw [he] at hnone
      cases hi : i.control with
      | none => exact (logged_tolerant tolerant_returned i reply c').trans hnone
      | some control =>
        have hnext := next_tolerant tolerant_returned (fun _ _ => rfl) s.program pc control reply
          (logged i reply c')
        exact hnext.trans ((logged_tolerant tolerant_returned i reply c').trans hnone)
  · right
    have hi := hgives.1
    have hbreak := tolerant_breakRequested.instruction (i := i) (fun h => by simp [hi] at h)
      (fun _ _ _ _ => rfl) s.settings.functionPrefix run c
    rw [Exec.after, he] at hbreak
    simp only [he, hi]
    exact ⟨v, logged i reply c', rfl, (logged_tolerant tolerant_returned i reply c').trans hv,
      hgives, (logged_tolerant tolerant_breakRequested i reply c').trans hbreak⟩

/-- What a step makes of an empty return slot: a return fills it and moves on by one, with no break
pending. -/
theorem step_slot (hs : s.caller = Library.asCaller run)
    (hi : s.program.instructions[m.pc]? = some i) (hm : m.context.returned = none) :
    (s.step i m).1.context.returned = none ∨
      ∃ v, (s.step i m).1.context.returned = some v ∧ s.GivesBack m v ∧ (s.step i m).2 = none ∧
        (s.step i m).1.pc = m.pc + 1 ∧ (s.step i m).1.context.breakRequested = false := by
  rw [step_apply]
  split
  · exact Or.inl hm
  · split
    · exact Or.inl hm
    · split
      · left
        unfold leaveLoop
        split <;> exact hm
      · next hb =>
        unfold dispatch
        split
        · left
          unfold passUnknown
          split <;> exact hm
        · have hslot := perform_slot (c := (visit i m).context) hs hm m.pc i
          dsimp only
          rw [Exec.after] at hslot
          obtain hnone | ⟨v, c', hp, hv, hgives, hbreak⟩ := hslot
          · left
            generalize hr : s.perform (visit i m).pc i (visit i m).context = r
            rw [show s.perform m.pc i (visit i m).context = r from hr] at hnone
            cases r <;> exact hnone
          · right
            rw [show s.perform (visit i m).pc i (visit i m).context = _ from hp]
            refine ⟨v, hv, ⟨hm, i, hi, hgives⟩, rfl, rfl, hbreak.trans ?_⟩
            simpa [visit] using hb

/-- While a function goes on its return slot is empty, until a step fills it; the next step notices
that. -/
theorem Takes.slot (hs : s.caller = Library.asCaller run) (hscope : s.functionScope = true)
    (ht : s.Takes n m m') (hm : m.context.returned = none) :
    m'.context.returned = none ∨
      ∃ k m₁ v, n = k + 1 ∧ s.Takes k m m₁ ∧ s.GivesBack m₁ v ∧ m'.context.returned = some v ∧
        m'.pc = m₁.pc + 1 ∧ m'.context.breakRequested = false := by
  induction ht with
  | refl => exact Or.inl hm
  | @more n i m m₁ m' hi hstep ht ih =>
    have hslot := step_slot (i := i) hs hi hm
    rw [hstep] at hslot
    obtain hnone | ⟨v, hv, hgives, -, hpc, hbreak⟩ := hslot
    · obtain hnone' | ⟨k, m₂, v, rfl, ht', hgives⟩ := ih hnone
      · exact Or.inl hnone'
      · exact Or.inr ⟨k + 1, m₂, v, rfl, .more hi hstep ht', hgives⟩
    · -- The slot is full, so no further step goes on.
      right
      cases ht with
      | refl => exact ⟨0, m, v, rfl, .refl m, hgives, hv, hpc, hbreak⟩
      | more _ hstep' _ => simp [step_unreturned hscope hstep'] at hv

theorem perform_calm (hs : s.caller = Library.asCaller run) (hc : c.Calm) (pc : Nat)
    (i : Instruction) : (Exec.after (s.perform pc i) c).Calm :=
  perform_tolerant tolerant_calm (fun _ _ => id) (fun _ => id) (fun _ _ _ => id) hs pc i c hc

/-- A step after which the run goes on reports no error. -/
theorem step_calm (hs : s.caller = Library.asCaller run) (h : s.step i m = (m', none))
    (hm : m.context.Calm) : m'.context.Calm := by
  rw [step_apply] at h
  split at h
  · cases h
  · split at h
    · cases h
    · split at h
      · unfold leaveLoop at h
        split at h <;> cases h
        exact hm
      · unfold dispatch at h
        split at h
        · cases h
          unfold passUnknown
          split
          · exact tolerant_calm.warn _ _ hm
          · exact hm
        · dsimp only at h
          split at h
          · next pc' c' hp =>
            cases h
            have hperform := perform_calm hs (c := (visit i m).context) hm m.pc i
            rwa [Exec.after, show s.perform m.pc i (visit i m).context = _ from hp] at hperform
          · cases h

/-! ### Runs -/

theorem Begins.calm (h : s.Begins c) : c.Calm := by
  obtain ⟨names, args, heap, notices, h⟩ := h
  refine bindNamed_tolerant tolerant_calm names args h ?_
  intro d hd
  simp [start, Context.fresh] at hd

theorem conclude_calm {ending : Ending} (hending : ending = .finished ∨ ending = .returned)
    (hb : m.context.breakRequested = false) (hm : m.context.Calm) :
    (s.conclude m ending).1 = true ∧ (s.conclude m ending).2.Calm := by
  refine ⟨by simp [conclude_success hending, hb], ?_⟩
  obtain rfl | rfl := hending <;> simp only [conclude, hb] <;> split
  · exact hm
  · exact tolerant_calm.warn _ _ hm
  · exact hm
  · exact tolerant_calm.warn _ _ hm

theorem errors_fail {r : RunResult} {kind : DiagnosticKind} {message : String} {index : Option Nat}
    (hr : r.context = s.fail kind message index c) (hc : c.Calm) :
    r.errors.map Diagnostic.kind = [kind] := by
  have hnone : c.diagnostics.toList.filter Diagnostic.isError = [] :=
    errors_of_calm (r := ⟨true, 0, c⟩) hc
  simp [RunResult.errors, hr, fail, Context.report, hnone, Diagnostic.isError]

/-- Whether a return in the step after `n` others is the last step that the limit allows while there
is an instruction behind it. -/
def cutsShort (s : Setup) (n : Nat) (m : Machine) : Bool :=
  n + 1 = s.settings.maxIterations && m.pc + 1 < s.program.size

/-- What a run leaves in the return slot is there when its last step is over. -/
theorem runFrom_returned_eq {ending : Ending}
    (h : s.steps s.settings.maxIterations { context := c } = (m, ending)) :
    (s.runFrom c).context.returned = m.context.returned := by
  simp only [runFrom, h]
  exact (s.conclude_agrees m ending).returned

/-- A run that ends by itself with nothing pending succeeds. -/
theorem runFrom_calm {ending : Ending}
    (h : s.steps s.settings.maxIterations { context := c } = (m, ending))
    (hending : ending = .finished ∨ ending = .returned) (hb : m.context.breakRequested = false)
    (hm : m.context.Calm) : (s.runFrom c).success = true ∧ (s.runFrom c).errors = [] := by
  obtain ⟨hsuccess, hreports⟩ := conclude_calm (s := s) hending hb hm
  exact ⟨by simpa [runFrom, h] using hsuccess,
    errors_of_calm (by simpa [runFrom, h] using hreports)⟩

/-- A step of a function whose return slot is full ends the run. -/
theorem step_full (hscope : s.functionScope = true) (hcancel : s.cancelAfter = none)
    (hm : m.context.returned = some v) : s.step i m = (visit i m, some .returned) := by
  rw [step_apply]
  simp [isCancelled, hcancel, hscope, hm]

/-- The last step that a run takes ends it within the limit. -/
theorem Takes.lt_of_ended {ending : Ending} (ht : s.Takes n { context := c } m)
    (hi : s.program.instructions[m.pc]? = some i)
    (hsteps : s.steps s.settings.maxIterations { context := c } = (m', ending))
    (hending : ending ≠ .exhausted) : n < s.settings.maxIterations := by
  have hlt := (Array.getElem?_eq_some_iff.1 hi).1
  obtain ⟨hle, heq⟩ | ⟨-, heq⟩ := ht.steps_eq s.settings.maxIterations
  · refine lt_of_le_of_ne hle fun hn => hending ?_
    rw [hsteps, hn, Nat.sub_self] at heq
    simpa [steps, Program.size, hlt] using congrArg Prod.snd heq
  · rw [hsteps] at heq
    exact absurd heq hending

/-- A function whose return slot is full has carried out a return. It succeeds unless that was cut
short. -/
theorem runFrom_slot (hs : s.caller = Library.asCaller run) (hscope : s.functionScope = true)
    (hcancel : s.cancelAfter = none) (hc : s.Begins c)
    (hv : (s.runFrom c).context.returned = some v) :
    ∃ n m, s.Takes n { context := c } m ∧ s.GivesBack m v ∧
      (s.runFrom c).success = !s.cutsShort n m ∧
      (s.runFrom c).errors.map Diagnostic.kind =
        if s.cutsShort n m then [.resource] else [] := by
  obtain ⟨n, m₁, hn, ht, hend⟩ := @steps_cases s s.settings.maxIterations { context := c }
  have hcalm : m₁.context.Calm :=
    ht.keeps (P := fun m => m.context.Calm) (fun _ _ _ _ hstep hm => step_calm hs hstep hm) hc.calm
  have hslot := ht.slot hs hscope hc.returned
  obtain ⟨hnone, hsteps⟩ | ⟨rfl, hsome, hsteps⟩ | ⟨i, m', ending, hi, hstep, hsteps⟩ := hend
  · -- Nothing stands behind the return.
    rw [runFrom_returned_eq hsteps] at hv
    obtain ⟨k, m, v', rfl, htk, hgives, hv', hpc, hbreak⟩ := hslot.resolve_left (by simp [hv])
    obtain rfl : v = v' := by simpa [hv] using hv'
    have hcut : s.cutsShort k m = false := by
      have hsize : s.program.size ≤ m.pc + 1 := by simpa [hpc, Program.size] using hnone
      simp [cutsShort, hsize]
    obtain ⟨hsuccess, herrors⟩ := runFrom_calm hsteps (Or.inl rfl) hbreak hcalm
    exact ⟨k, m, htk, hgives, by simp [hsuccess, hcut], by simp [herrors, hcut]⟩
  · -- The limit is reached before the return is noticed.
    rw [runFrom_returned_eq hsteps] at hv
    obtain ⟨k, m, v', hk, htk, hgives, hv', hpc, hbreak⟩ := hslot.resolve_left (by simp [hv])
    obtain rfl : v = v' := by simpa [hv] using hv'
    have hcut : s.cutsShort k m = true := by
      have hsize : m.pc + 1 < s.program.size := by simpa [hpc, Program.size] using hsome
      simp [cutsShort, hk, hsize]
    refine ⟨k, m, htk, hgives, by simp [runFrom, hsteps, conclude, hcut], ?_⟩
    rw [hcut, if_pos rfl]
    exact errors_fail (s := s) (c := m₁.context) (by simp [runFrom, hsteps, conclude]; rfl) hcalm
  · rw [runFrom_returned_eq hsteps] at hv
    obtain hempty | ⟨k, m, v', rfl, htk, hgives, hv', hpc, hbreak⟩ := hslot
    · -- A step that ends the run fills no slot.
      have hkeep := step_slot (i := i) hs hi hempty
      rw [hstep] at hkeep
      obtain hkeep | ⟨-, -, -, hgoes, -⟩ := hkeep
      · exact absurd (hkeep.symm.trans hv) (by simp)
      · cases hgoes
    · obtain ⟨rfl, rfl⟩ : m' = visit i m₁ ∧ ending = .returned := by
        simpa [step_full hscope hcancel hv', eq_comm] using hstep
      obtain rfl : v = v' := by simpa [visit, hv'] using hv.symm
      have hlt := ht.lt_of_ended hi hsteps (by simp)
      have hcut : s.cutsShort k m = false := by simp [cutsShort, hlt.ne]
      obtain ⟨hsuccess, herrors⟩ := runFrom_calm hsteps (Or.inr rfl) hbreak hcalm
      exact ⟨k, m, htk, hgives, by simp [hsuccess, hcut], by simp [herrors, hcut]⟩

/-- What a caller is given by a called graph that ran. -/
theorem asCaller_of_ok {call : Library.Runner} {key : String} {args : List Value} {r : RunResult}
    (h : call c.room key args c.heap c.notices = .ok r) :
    ∃ c', Library.asCaller call key args c =
      .ok (if r.success then r.returnValue else .nil) c' := by
  simp only [Library.asCaller, h]
  cases r.success with
  | true => exact ⟨_, rfl⟩
  | false => exact ⟨_, rfl⟩

/-- A function that has returned has carried out a return of its value. It succeeds without an
error, and hands the value to its caller, unless the return was the last step that the limit allows
and an instruction stands behind it; then it fails at the limit and the caller is given nil. -/
theorem returned_unless_cutShort (settings : Settings) (run : Library.Runner)
    (instructions : List Instruction) (room : Nat) {s : Setup}
    (hs : s = Library.setupFor settings run instructions true room) {c : Context}
    (hc : s.Begins c) {v : Value} (hv : (s.runFrom c).context.returned = some v) :
    (s.runFrom c).returnValue = v ∧
    ∃ n m, s.Takes n { context := c } m ∧ s.GivesBack m v ∧
      (s.runFrom c).success = !s.cutsShort n m ∧
      (s.runFrom c).errors.map Diagnostic.kind =
        (if s.cutsShort n m then [.resource] else []) ∧
      ∀ (call : Library.Runner) (key : String) (args : List Value) (caller : Context),
        call caller.room key args caller.heap caller.notices = .ok (s.runFrom c) →
        ∃ c', Library.asCaller call key args caller =
          .ok (if s.cutsShort n m then .nil else v) c' := by
  have hvalue : (s.runFrom c).returnValue = v := by
    rw [RunResult.returnValue, hv]
    rfl
  have hcaller : s.caller = Library.asCaller run := by rw [hs]; rfl
  obtain ⟨n, m, ht, hgives, hsuccess, herrors⟩ :=
    runFrom_slot hcaller (by rw [hs]; rfl) (by rw [hs]; rfl) hc hv
  refine ⟨hvalue, n, m, ht, hgives, hsuccess, herrors, fun call key args caller hcall => ?_⟩
  obtain ⟨c', hc'⟩ := asCaller_of_ok hcall
  refine ⟨c', ?_⟩
  rw [hc', hvalue, hsuccess]
  cases s.cutsShort n m <;> rfl

/-- A function that returns out of a loop, with so many steps allowed. -/
def leaving (limit : Nat) : Setup :=
  Library.setupFor { maxIterations := limit } (fun _ key _ _ _ => .error (.call (.noLookup key)))
    [{ tag := "forNumeric" }, { tag := "return", config := .ofList [("returnValue", .text "7")] },
     { tag := "endFor" }] true

theorem leaving_begins (limit : Nat) : (leaving limit).Begins ((leaving limit).start {} #[]) :=
  begins_bindParameters (leaving limit) [] [] {} #[]

/-- With a step to spare after the return the function succeeds and gives its value. -/
theorem leaving_three_returned :
    ((leaving 3).runFrom ((leaving 3).start {} #[])).success = true ∧
    ∃ n m, (leaving 3).Takes n { context := (leaving 3).start {} #[] } m ∧
      (leaving 3).GivesBack m (.int 7) ∧ (leaving 3).cutsShort n m = false ∧
      ((leaving 3).runFrom ((leaving 3).start {} #[])).errors = [] := by
  have hreturned : ((leaving 3).runFrom ((leaving 3).start {} #[])).context.returned =
      some (.int 7) := by
    decide +kernel
  have hsucceeds : ((leaving 3).runFrom ((leaving 3).start {} #[])).success = true := by
    decide +kernel
  obtain ⟨-, n, m, ht, hgives, hsuccess, herrors, -⟩ :=
    returned_unless_cutShort { maxIterations := 3 } _ _ nestingLimit (s := leaving 3) rfl
      (leaving_begins 3) hreturned
  have hcut : (leaving 3).cutsShort n m = false := by simpa [hsucceeds] using hsuccess
  refine ⟨hsucceeds, n, m, ht, hgives, hcut, ?_⟩
  simpa [hcut] using herrors

/-- With no step to spare the function has returned and yet fails: what it returned is lost on its
caller. -/
theorem leaving_two_fails :
    (leaving 2).Begins ((leaving 2).start {} #[]) ∧
    ((leaving 2).runFrom ((leaving 2).start {} #[])).context.returned = some (.int 7) ∧
    ((leaving 2).runFrom ((leaving 2).start {} #[])).success = false ∧
    ((leaving 2).runFrom ((leaving 2).start {} #[])).errors.map Diagnostic.kind = [.resource] :=
  ⟨leaving_begins 2, by decide +kernel, by decide +kernel, by decide +kernel⟩

end Setup

end NodeScript
