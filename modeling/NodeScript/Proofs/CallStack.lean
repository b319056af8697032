import NodeScript.Proofs.CallTargets
import NodeScript.Proofs.Reporting

/-!
Runs that call runs, as one machine with a stack. A run that comes to a call waits until the called
graph has run, or could not be run, and then goes on with the answer. The machine counts depth up
from the run at the bottom and knows no bound but the two limits of the settings. It comes to an end
whatever the graphs call, with the result that the nested runs have.
-/

namespace NodeScript

variable {l : Library} {s : Setup} {run run' : Library.Runner} {i : Instruction} {m m' : Machine}
  {c : Context} {call : Call} {start : String}

/-- What a call asks for: the function graph under a key, to be run on some arguments. -/
structure Request where
  room : Nat
  key : String
  args : List Value
  heap : Heap
  notices : Array Diagnostic

/-- What comes of a request. -/
def Request.answer (q : Request) (run : Library.Runner) : Except Fault RunResult :=
  run q.room q.key q.args q.heap q.notices

/-! ### Requests of a step -/

/-- The request of a call, if it has a name and its arguments can be read. -/
def Call.request? (call : Call) (start : String) (c : Context) : Option Request :=
  match givenName? call.functionName, call.send c with
  | some name, .ok args c' => some ⟨c'.room, functionKey start name, args, c'.heap, c'.notices⟩
  | _, _ => none

theorem Library.asCaller_congr {key : String} {args : List Value}
    (h : run c.room key args c.heap c.notices = run' c.room key args c.heap c.notices) :
    asCaller run key args c = asCaller run' key args c := by
  simp only [asCaller, h]

/-- A call depends on what comes of its request, and on nothing else that the caller could run. -/
theorem Call.run_congr
    (h : ∀ q, call.request? start c = some q → q.answer run = q.answer run') :
    call.run start (Library.asCaller run) c = call.run start (Library.asCaller run') c := by
  cases hname : givenName? call.functionName with
  | none => rw [run_nameless hname, run_nameless hname]
  | some name =>
    rw [run_named hname, run_named hname]
    cases hsend : call.send c with
    | error f c' => rfl
    | ok args c' =>
      have hq := h ⟨c'.room, functionKey start name, args, c'.heap, c'.notices⟩
        (by simp [request?, hname, hsend])
      simp only [Call.invoke, Library.asCaller_congr hq]

/-- Only calls hand anything to the caller. -/
theorem Instruction.evaluate_of_not_call (hi : i.control ≠ some .call) (start : String)
    (caller caller' : Caller) : i.evaluate start caller = i.evaluate start caller' := by
  unfold evaluate
  cases hkind : HandlerKind.ofTag? i.tag with
  | none => rfl
  | some kind =>
    funext c
    simp only [bind, EStateM.bind, get, getThe, MonadStateOf.get, EStateM.get]
    cases hd : Handler.decoder c.heap kind i.config.get? with
    | invalid problems => rfl
    | valid handler =>
      cases handler with
      | call call =>
        obtain rfl := Handler.kind_eq_call hd
        exact absurd (control_eq hkind rfl (by simp)) hi
      | _ => rfl

namespace Setup

/-- The request that a step at an instruction makes before it can be completed. -/
def request? (s : Setup) (i : Instruction) (m : Machine) : Option Request :=
  if s.isReady m ∧ i.control = some .call then
    match Call.decoder m.context.heap i.config.get? with
    | .valid call => call.request? s.settings.functionPrefix (visit i m).context
    | .invalid _ => none
  else none

/-- The same run whose calls go to `run`. -/
def calling (s : Setup) (run : Library.Runner) : Setup :=
  { s with caller := Library.asCaller run }

/-- A step depends on the caller only by the evaluation of its instruction. -/
theorem step_congr
    (h : s.Ready m → i.evaluate s.settings.functionPrefix s.caller (visit i m).context =
      i.evaluate s.settings.functionPrefix (Library.asCaller run) (visit i m).context) :
    s.step i m = (s.calling run).step i m := by
  by_cases hready : s.Ready m
  · have hready' : (s.calling run).Ready m := ⟨hready.going, hready.unreturned, hready.unbroken⟩
    rw [step_ready hready, step_ready hready']
    have hperform : s.perform m.pc i (visit i m).context =
        (s.calling run).perform m.pc i (visit i m).context := by
      rw [perform_apply, perform_apply, h hready]
      rfl
    have hvisit : (visit i m).pc = m.pc := rfl
    simp only [dispatch, hvisit, hperform]
    rfl
  · have hcancel : (s.calling run).isCancelled m = s.isCancelled m := rfl
    have hscope : (s.calling run).functionScope = s.functionScope := rfl
    have hleave : (s.calling run).leaveLoop (visit i m) = s.leaveLoop (visit i m) := rfl
    rw [step_apply, step_apply, hcancel, hscope, hleave]
    split
    · rfl
    · split
      · rfl
      · split
        · rfl
        · next h₁ h₂ h₃ =>
          exact absurd ⟨Bool.eq_false_of_not_eq_true h₁, Bool.eq_false_of_not_eq_true h₂,
            Bool.eq_false_of_not_eq_true h₃⟩ hready

/-- A step depends on what comes of its request, and on nothing else that the caller could run. -/
theorem step_calling (hs : s.caller = Library.asCaller run)
    (h : ∀ q, s.request? i m = some q → q.answer run = q.answer run') :
    s.step i m = (s.calling run').step i m := by
  refine step_congr fun hready => ?_
  by_cases hi : i.control = some .call
  · cases hcall : Call.decoder m.context.heap i.config.get? with
    | invalid problems =>
      have hd : Handler.decoder (visit i m).context.heap .call i.config.get? = .invalid problems := by
        simp only [Handler.decoder, Functor.map]
        rw [show Call.decoder (visit i m).context.heap i.config.get? = _ from hcall]
        rfl
      rw [Instruction.evaluate_of_control hi rfl, Instruction.evaluate_of_control hi rfl, hd]
    | valid call =>
      rw [evaluate_call (c := (visit i m).context) hi hcall,
        evaluate_call (c := (visit i m).context) hi hcall, hs, Call.run_congr fun q hq => h q ?_]
      simpa [request?, isReady_iff.2 hready, hi, hcall] using hq
  · rw [Instruction.evaluate_of_not_call hi]

/-! ### Runs from a state on -/

/-- The result of a run that has ended. -/
def result (s : Setup) (m : Machine) (ending : Ending) : RunResult where
  success := (s.conclude m ending).1
  iterations := m.iterations
  context := (s.conclude m ending).2

/-- The result of a run that goes on from a state with the steps that it has left. -/
def finish (s : Setup) (m : Machine) : RunResult :=
  let ended := s.steps (s.settings.maxIterations - m.iterations) m
  s.result ended.1 ended.2

theorem finish_of_none (hi : s.program.instructions[m.pc]? = none) :
    s.finish m = s.result m .finished := by
  have hpc : ¬ m.pc < s.program.size := by simpa [Program.size] using hi
  have hsteps (budget : Nat) : s.steps budget m = (m, .finished) := by
    cases budget <;> simp [steps, hi, hpc]
  simp [finish, hsteps]

theorem finish_of_limit (hi : s.program.instructions[m.pc]? = some i)
    (hlimit : s.settings.maxIterations ≤ m.iterations) :
    s.finish m = s.result m .exhausted := by
  have hpc : m.pc < s.program.size := (Array.getElem?_eq_some_iff.1 hi).1
  simp [finish, Nat.sub_eq_zero_of_le hlimit, steps, hpc]

theorem finish_of_step (hi : s.program.instructions[m.pc]? = some i)
    (hlimit : m.iterations < s.settings.maxIterations) :
    s.finish m =
      match s.step i m with
      | (m', none) => s.finish m'
      | (m', some ending) => s.result m' ending := by
  have hbudget : s.settings.maxIterations - m.iterations =
      s.settings.maxIterations - (m.iterations + 1) + 1 := by omega
  rcases hstep : s.step i m with ⟨m', _ | ending⟩
  · simp only [finish, hbudget, steps, hi, hstep, step_iterations hstep]
  · simp only [finish, hbudget, steps, hi, hstep]

end Setup

/-! ### The machine -/

/-- Stands where no call is made. -/
def Library.unanswered : Library.Runner := fun _ key _ _ _ => .error (.call (.noLookup key))

/-- A run of a graph that is under way or waits for what it has called. -/
structure Activation where
  /-- The key under which the graph was called. -/
  key : String
  /-- How many calls deep the run is. -/
  depth : Nat
  instructions : List Instruction
  functionScope : Bool
  room : Nat
  cancelAfter : Option Nat
  machine : Machine

namespace Activation

/-- What a run goes by if its calls go to `run`. -/
def setup (a : Activation) (settings : Settings) (run : Library.Runner) : Setup :=
  Library.setupFor settings run a.instructions a.functionScope a.room a.cancelAfter

/-- The instruction that a run stands at. -/
def instruction? (a : Activation) : Option Instruction :=
  (Program.ofInstructions a.instructions).instructions[a.machine.pc]?

theorem setup_step (a : Activation) (settings : Settings) (run run' : Library.Runner)
    (h : ∀ q, (a.setup settings Library.unanswered).request? i a.machine = some q →
      q.answer run = q.answer run') :
    (a.setup settings run).step i a.machine = (a.setup settings run').step i a.machine :=
  @Setup.step_calling _ run run' i a.machine rfl h

end Activation

/-- The state of all runs. -/
inductive CallState where
  /-- The innermost run takes steps; each of the others waits for the one before it. -/
  | running (a : Activation) (callers : List Activation)
  /-- The innermost run is over, or could not begin, and its caller is to go on with the answer. -/
  | answering (x : Except Fault RunResult) (callers : List Activation)

namespace CallState

/-- The runs that wait for an answer, the innermost first. -/
def callers : CallState → List Activation
  | .running _ callers => callers
  | .answering _ callers => callers

/-- The runs that are under way, the innermost first. -/
def active : CallState → List Activation
  | .running a callers => a :: callers
  | .answering _ callers => callers

end CallState

namespace Library

/-- A run at its first instruction. -/
def activate (key : String) (depth : Nat) (instructions : List Instruction)
    (functionScope : Bool) (room : Nat) (cancelAfter : Option Nat) (parameters : List String)
    (args : List Value) (heap : Heap) (notices : Array Diagnostic) : Activation :=
  { key, depth, instructions, functionScope, room, cancelAfter
    machine.context := { Context.fresh heap notices with room }.bindParameters parameters args }

/-- Begins the run that a call asks for, one deeper than its caller, unless that is too deep. -/
def begin? (l : Library) (depth : Nat) (q : Request) : Except Fault Activation :=
  if l.settings.maxCallDepth < depth + 1 then
    .error (.call (.tooDeep l.settings.maxCallDepth q.key))
  else do
    let g ← l.resolve q.heap q.key
    if q.room < callLevels then .error (.tooDeep .call)
    return activate q.key (depth + 1) g.instructions true (q.room - callLevels) none
      (g.parameters.getD []) q.args q.heap q.notices

/-- The state after a step of the innermost run. -/
def stepped (l : Library) (a : Activation) (callers : List Activation) :
    Machine × Option Ending → CallState
  | (m, none) => .running { a with machine := m } callers
  | (m, some ending) => .answering (.ok ((a.setup l.settings unanswered).result m ending)) callers

/-- The state once a call is under way. -/
def entered (caller : Activation) (callers : List Activation) :
    Except Fault Activation → CallState
  | .ok callee => .running callee (caller :: callers)
  | .error f => .answering (.error f) (caller :: callers)

/-- One move of the innermost run: it ends, takes a step or calls. -/
def advance (l : Library) (a : Activation) (callers : List Activation) : CallState :=
  let s := a.setup l.settings unanswered
  match a.instruction? with
  | none => .answering (.ok (s.result a.machine .finished)) callers
  | some i =>
    if l.settings.maxIterations ≤ a.machine.iterations then
      .answering (.ok (s.result a.machine .exhausted)) callers
    else
      match s.request? i a.machine with
      | none => l.stepped a callers (s.step i a.machine)
      | some q => entered a callers (l.begin? a.depth q)

/-- One move of the machine, until nothing waits for the answer. -/
def move (l : Library) : CallState → Option CallState
  | .running a callers => some (l.advance a callers)
  | .answering _ [] => none
  | .answering x (a :: callers) => do
    let i ← a.instruction?
    return l.stepped a callers ((a.setup l.settings fun _ _ _ _ _ => x).step i a.machine)

/-- So many moves lead from one state to another. -/
inductive Moves (l : Library) : Nat → CallState → CallState → Prop
  | refl (σ : CallState) : Moves l 0 σ σ
  | more {n : Nat} {σ σ₁ σ' : CallState} (hmove : l.move σ = some σ₁) (h : Moves l n σ₁ σ') :
      Moves l (n + 1) σ σ'

variable {n k : Nat} {σ σ₁ σ' τ : CallState}

theorem Moves.single (h : l.move σ = some σ') : l.Moves 1 σ σ' :=
  .more h (.refl σ')

theorem Moves.trans (h : l.Moves n σ σ₁) (h' : l.Moves k σ₁ σ') : l.Moves (n + k) σ σ' := by
  induction h with
  | refl => simpa using h'
  | more hmove _ ih =>
    rw [Nat.succ_add]
    exact .more hmove (ih h')

/-- What every move keeps holds along a run of the machine. -/
theorem Moves.keeps {P : CallState → Prop} (h : l.Moves n σ σ')
    (hmove : ∀ σ σ', l.move σ = some σ' → P σ → P σ') (hσ : P σ) : P σ' := by
  induction h with
  | refl => exact hσ
  | more h _ ih => exact ih (hmove _ _ h hσ)

/-- The machine makes no more moves than those that lead to where it halts. -/
theorem Moves.le_of_halts (h : l.Moves n σ σ') (hhalt : l.Moves k σ τ) (hτ : l.move τ = none) :
    n ≤ k := by
  induction h generalizing k with
  | refl => exact Nat.zero_le k
  | more hmove _ ih =>
    cases hhalt with
    | refl => simp [hτ] at hmove
    | more hmove' hhalt =>
      cases hmove.symm.trans hmove'
      exact Nat.succ_le_succ (ih hhalt)

/-! ### The machine comes to an end -/

/-- How many moves a run of at most `limit` steps takes at most, below which calls nest at most so
deep: every step may be a call, whose run is entered, comes to an end and is left again. -/
def moveBound (limit : Nat) : (depth : Nat) → Nat
  | 0 => limit * 2 + 1
  | depth + 1 => limit * (moveBound limit depth + 2) + 1

/-- The moves from a call up to its answer. -/
def callBound (limit : Nat) : (depth : Nat) → Nat
  | 0 => 1
  | depth + 1 => moveBound limit depth + 1

theorem moveBound_eq (limit depth : Nat) :
    moveBound limit depth = limit * (callBound limit depth + 1) + 1 := by
  cases depth <;> rfl

/-- From a run that takes steps the machine comes to the run's result, its callers left as they
were. -/
def Answers (l : Library) (depth : Nat) (a : Activation) : Prop :=
  ∀ callers, ∃ n ≤ (l.settings.maxIterations - a.machine.iterations) *
      (callBound l.settings.maxIterations depth + 1) + 1,
    l.Moves n (.running a callers)
      (.answering (.ok ((a.setup l.settings (l.runFunction depth)).finish a.machine)) callers)

variable {depth : Nat} {a : Activation} {callers : List Activation} {q : Request}

/-- What the nested runs make of a request, in terms of the run that the machine begins. -/
theorem answer_eq (hdepth : a.depth + depth = l.settings.maxCallDepth) :
    q.answer (l.runFunction depth) = (l.begin? a.depth q).map fun callee =>
      (callee.setup l.settings (l.runFunction (depth - 1))).finish callee.machine := by
  unfold begin?
  cases depth with
  | zero =>
    rw [if_pos (by omega)]
    rfl
  | succ depth =>
    rw [if_neg (by omega)]
    simp only [Request.answer, runFunction, bind, Except.bind]
    cases l.resolve q.heap q.key with
    | error f => rfl
    | ok g =>
      dsimp only
      split <;> rfl

theorem begin?_eq_ok {callee : Activation} (h : l.begin? n q = .ok callee) :
    n + 1 ≤ l.settings.maxCallDepth ∧ ∃ g, l.resolve q.heap q.key = .ok g ∧
      callee = activate q.key (n + 1) g.instructions true (q.room - callLevels) none
        (g.parameters.getD []) q.args q.heap q.notices := by
  unfold begin? at h
  split at h
  · cases h
  · next hdepth =>
    simp only [bind, Except.bind] at h
    cases hr : l.resolve q.heap q.key with
    | error f =>
      rw [hr] at h
      cases h
    | ok g =>
      rw [hr] at h
      dsimp only at h
      split at h
      · cases h
      · cases h
        exact ⟨by omega, g, rfl, rfl⟩

/-- A request comes to its answer if the run does that it begins. -/
theorem moves_answer (callers : List Activation)
    (hdepth : a.depth + depth = l.settings.maxCallDepth)
    (hcallee : ∀ callee, l.begin? a.depth q = .ok callee → l.Answers (depth - 1) callee)
    (hmove : l.move (.running a callers) = some (entered a callers (l.begin? a.depth q))) :
    ∃ n ≤ callBound l.settings.maxIterations depth,
      l.Moves n (.running a callers)
        (.answering (q.answer (l.runFunction depth)) (a :: callers)) := by
  rw [answer_eq hdepth]
  cases hbegin : l.begin? a.depth q with
  | error f =>
    rw [hbegin] at hmove
    refine ⟨1, ?_, .single hmove⟩
    cases depth <;> simp [callBound]
  | ok callee =>
    rw [hbegin] at hmove
    obtain ⟨hle, g, -, hmade⟩ := begin?_eq_ok hbegin
    obtain ⟨n, hn, hmoves⟩ := hcallee callee hbegin (a :: callers)
    refine ⟨n + 1, ?_, .more hmove hmoves⟩
    obtain ⟨depth, rfl⟩ : ∃ d, depth = d + 1 := ⟨depth - 1, by omega⟩
    have hfresh : callee.machine.iterations = 0 := by rw [hmade]; rfl
    rw [hfresh, Nat.sub_zero, Nat.add_sub_cancel, ← moveBound_eq] at hn
    exact Nat.succ_le_succ hn

/-- A step of the innermost run is completed, with the call that it may make. -/
theorem moves_step (hdepth : a.depth + depth = l.settings.maxCallDepth)
    (hcallee : ∀ q callee, l.begin? a.depth q = .ok callee → l.Answers (depth - 1) callee)
    (hi : a.instruction? = some i)
    (hlimit : a.machine.iterations < l.settings.maxIterations) (callers : List Activation) :
    ∃ n ≤ callBound l.settings.maxIterations depth + 1,
      l.Moves n (.running a callers)
        (l.stepped a callers ((a.setup l.settings (l.runFunction depth)).step i a.machine)) := by
  have hgoing : ¬ l.settings.maxIterations ≤ a.machine.iterations := Nat.not_le.2 hlimit
  cases hq : (a.setup l.settings unanswered).request? i a.machine with
  | none =>
    have hstep := a.setup_step l.settings unanswered (l.runFunction depth) (i := i)
      fun q hq' => by simp [hq] at hq'
    refine ⟨1, by omega, .single ?_⟩
    simp only [move, advance, hi, hgoing, if_false, hq, hstep]
  | some q =>
    obtain ⟨n, hn, hmoves⟩ := moves_answer callers hdepth (hcallee q)
      (by simp only [move, advance, hi, hgoing, if_false, hq])
    refine ⟨n + 1, by omega, hmoves.trans (.single ?_)⟩
    have hstep := a.setup_step l.settings (fun _ _ _ _ _ => q.answer (l.runFunction depth))
      (l.runFunction depth) (i := i) fun q' hq' => by
        obtain rfl : q = q' := Option.some.inj (hq.symm.trans hq')
        rfl
    simp only [move, hi, hstep, Option.bind_eq_bind, Option.bind_some, Option.pure_def]

theorem move_finished (hi : a.instruction? = none) (run : Runner) :
    l.move (.running a callers) =
      some (.answering (.ok ((a.setup l.settings run).finish a.machine)) callers) := by
  rw [Setup.finish_of_none (s := a.setup l.settings run) hi]
  simp only [move, advance, hi]
  rfl

theorem move_exhausted (hi : a.instruction? = some i)
    (hlimit : l.settings.maxIterations ≤ a.machine.iterations) (run : Runner) :
    l.move (.running a callers) =
      some (.answering (.ok ((a.setup l.settings run).finish a.machine)) callers) := by
  rw [Setup.finish_of_limit (s := a.setup l.settings run) hi hlimit]
  simp only [move, advance, hi, hlimit, if_true]
  rfl

/-- Every run comes to its result. The induction is on how deep calls may still nest and, below it,
on the steps that the run has left. -/
theorem answers (depth : Nat) (a : Activation)
    (hdepth : a.depth + depth = l.settings.maxCallDepth) : l.Answers depth a := by
  induction depth using Nat.strong_induction_on generalizing a with
  | _ depth ihdepth =>
    intro callers
    generalize hbudget : l.settings.maxIterations - a.machine.iterations = budget
    induction budget generalizing a with
    | zero =>
      refine ⟨1, by omega, .single ?_⟩
      cases hi : a.instruction? with
      | none => exact move_finished hi _
      | some i => exact move_exhausted hi (by omega) _
    | succ budget ih =>
      cases hi : a.instruction? with
      | none => exact ⟨1, by omega, .single (move_finished hi _)⟩
      | some i =>
        have hlimit : a.machine.iterations < l.settings.maxIterations := by omega
        have hcallee (q : Request) (callee : Activation) (h : l.begin? a.depth q = .ok callee) :
            l.Answers (depth - 1) callee := by
          obtain ⟨hle, g, -, rfl⟩ := begin?_eq_ok h
          exact ihdepth (depth - 1) (by omega) _ (by simp only [activate]; omega)
        obtain ⟨n, hn, hmoves⟩ := moves_step hdepth hcallee hi hlimit callers
        rw [Setup.finish_of_step (s := a.setup l.settings (l.runFunction depth)) hi hlimit]
        rw [Nat.succ_mul]
        rcases hstep : (a.setup l.settings (l.runFunction depth)).step i a.machine with
          ⟨m, _ | ending⟩
        · rw [hstep] at hmoves
          have hcount := Setup.step_iterations hstep
          obtain ⟨k, hk, hmoves'⟩ := ih { a with machine := m } hdepth (by simp only; omega)
          exact ⟨n + k, by omega, hmoves.trans hmoves'⟩
        · rw [hstep] at hmoves
          exact ⟨n, by omega, hmoves⟩

/-! ### What a move does -/

/-- All that a move can do. -/
inductive Turns (l : Library) : CallState → CallState → Prop
  | ends (a : Activation) (callers : List Activation) (r : RunResult) :
      Turns l (.running a callers) (.answering (.ok r) callers)
  | steps (a : Activation) (callers : List Activation) (m : Machine)
      (hlimit : a.machine.iterations < l.settings.maxIterations)
      (hcount : m.iterations = a.machine.iterations + 1) :
      Turns l (.running a callers) (.running { a with machine := m } callers)
  | calls {a callee : Activation} {i : Instruction} {q : Request} (callers : List Activation)
      (hlimit : a.machine.iterations < l.settings.maxIterations) (hi : a.instruction? = some i)
      (hq : (a.setup l.settings unanswered).request? i a.machine = some q)
      (hbegin : l.begin? a.depth q = .ok callee) :
      Turns l (.running a callers) (.running callee (a :: callers))
  | refuses {a : Activation} {i : Instruction} {q : Request} {f : Fault} (callers : List Activation)
      (hlimit : a.machine.iterations < l.settings.maxIterations) (hi : a.instruction? = some i)
      (hq : (a.setup l.settings unanswered).request? i a.machine = some q)
      (hbegin : l.begin? a.depth q = .error f) :
      Turns l (.running a callers) (.answering (.error f) (a :: callers))
  | resumes (x : Except Fault RunResult) (a : Activation) (callers : List Activation) (m : Machine)
      (hcount : m.iterations = a.machine.iterations + 1) :
      Turns l (.answering x (a :: callers)) (.running { a with machine := m } callers)
  /-- The caller ends by the answer. -/
  | fails (x : Except Fault RunResult) (a : Activation) (callers : List Activation)
      (r : RunResult) : Turns l (.answering x (a :: callers)) (.answering (.ok r) callers)

theorem move_turns (h : l.move σ = some σ') : l.Turns σ σ' := by
  cases σ with
  | running a callers =>
    obtain rfl := Option.some.inj h
    unfold advance
    dsimp only
    cases hi : a.instruction? with
    | none => exact .ends a callers _
    | some i =>
      dsimp only
      split
      · exact .ends a callers _
      · next hlimit =>
        have hlt : a.machine.iterations < l.settings.maxIterations := Nat.not_le.1 hlimit
        cases hq : (a.setup l.settings unanswered).request? i a.machine with
        | none =>
          rcases hstep : (a.setup l.settings unanswered).step i a.machine with ⟨m, _ | ending⟩
          · exact .steps a callers m hlt (Setup.step_iterations hstep)
          · exact .ends a callers _
        | some q =>
          dsimp only
          cases hbegin : l.begin? a.depth q with
          | ok callee => exact .calls callers hlt hi hq hbegin
          | error f => exact .refuses callers hlt hi hq hbegin
  | answering x callers =>
    cases callers with
    | nil => simp [move] at h
    | cons a callers =>
      obtain ⟨i, hi, h⟩ := Option.bind_eq_some_iff.1 h
      obtain rfl := Option.some.inj h
      rcases hstep : (a.setup l.settings fun _ _ _ _ _ => x).step i a.machine with ⟨m, _ | ending⟩
      · exact .resumes x a callers m (Setup.step_iterations hstep)
      · exact .fails x a callers _

/-- The runs under way nest one call deeper each, from the first one on and within the limit, and
none of them has taken more steps than it may. -/
structure Nested (l : Library) (σ : CallState) : Prop where
  depths : σ.active.map Activation.depth = (List.range σ.active.length).reverse
  deepest : σ.active.length ≤ l.settings.maxCallDepth + 1
  limit : ∀ a ∈ σ.active, a.machine.iterations ≤ l.settings.maxIterations
  /-- What waits for an answer has the step left that it waits in. -/
  waiting : ∀ a ∈ σ.callers, a.machine.iterations < l.settings.maxIterations

theorem depths_cons_iff (a : Activation) (callers : List Activation) :
    (a :: callers).map Activation.depth = (List.range (a :: callers).length).reverse ↔
      a.depth = callers.length ∧
        callers.map Activation.depth = (List.range callers.length).reverse := by
  simp [List.range_succ]

theorem nested_move (h : l.move σ = some σ') (hσ : l.Nested σ) : l.Nested σ' := by
  cases move_turns h with
  | ends a callers r =>
    exact ⟨((depths_cons_iff a callers).1 hσ.depths).2, Nat.le_of_succ_le hσ.deepest,
      fun b hb => (hσ.waiting b hb).le, hσ.waiting⟩
  | steps a callers m hlimit hcount =>
    refine ⟨hσ.depths, hσ.deepest, ?_, hσ.waiting⟩
    rintro b (_ | ⟨_, hb⟩)
    · exact hcount.trans_le hlimit
    · exact (hσ.waiting b hb).le
  | @calls a callee i q callers hlimit hi hq hbegin =>
    obtain ⟨hle, g, -, rfl⟩ := begin?_eq_ok hbegin
    have hdepth := ((depths_cons_iff a callers).1 hσ.depths).1
    refine ⟨(depths_cons_iff _ _).2 ⟨?_, hσ.depths⟩, ?_, ?_, ?_⟩
    · simp [activate, hdepth]
    · simp only [CallState.active, List.length_cons, ← hdepth]
      omega
    · rintro b (_ | ⟨_, hb⟩)
      · exact Nat.zero_le _
      · exact hσ.limit b hb
    · rintro b (_ | ⟨_, hb⟩)
      · exact hlimit
      · exact hσ.waiting b hb
  | @refuses a i q f callers hlimit hi hq hbegin =>
    refine ⟨hσ.depths, hσ.deepest, hσ.limit, ?_⟩
    rintro b (_ | ⟨_, hb⟩)
    · exact hlimit
    · exact hσ.waiting b hb
  | resumes x a callers m hcount =>
    have hwaiting (b : Activation) (hb : b ∈ callers) := hσ.waiting b (List.mem_cons_of_mem a hb)
    refine ⟨hσ.depths, hσ.deepest, ?_, hwaiting⟩
    rintro b (_ | ⟨_, hb⟩)
    · exact hcount.trans_le (hσ.waiting a List.mem_cons_self)
    · exact (hwaiting b hb).le
  | fails x a callers r =>
    have hwaiting (b : Activation) (hb : b ∈ callers) := hσ.waiting b (List.mem_cons_of_mem a hb)
    exact ⟨((depths_cons_iff a callers).1 hσ.depths).2, Nat.le_of_succ_le hσ.deepest,
      fun b hb => (hwaiting b hb).le, hwaiting⟩

/-! ### Calls at the limit -/

end Library

theorem Call.request?_eq_some {q : Request} (h : call.request? start c = some q) :
    ∃ name args c', givenName? call.functionName = some name ∧ call.send c = .ok args c' ∧
      q = ⟨c'.room, functionKey start name, args, c'.heap, c'.notices⟩ := by
  unfold request? at h
  split at h
  · next name args c' hname hsend => exact ⟨name, args, c', hname, hsend, (Option.some.inj h).symm⟩
  · cases h

theorem Setup.request?_eq_some {q : Request} (h : s.request? i m = some q) :
    s.Ready m ∧ i.control = some .call ∧ ∃ call,
      Call.decoder m.context.heap i.config.get? = .valid call ∧
      call.request? s.settings.functionPrefix (visit i m).context = some q := by
  unfold request? at h
  split at h
  · next hready =>
    cases hcall : Call.decoder m.context.heap i.config.get? with
    | valid call =>
      rw [hcall] at h
      exact ⟨isReady_iff.1 hready.1, hready.2, call, rfl, h⟩
    | invalid problems =>
      rw [hcall] at h
      cases h
  · cases h

namespace Library

/-- The request that the innermost run makes is declined: no run begins, and the run goes on behind
its call with nil for an answer. Its log has an entry that calls nest too deep, and the result of the
call. -/
def Declines (l : Library) (a : Activation) (callers : List Activation) (i : Instruction)
    (q : Request) : Prop :=
  let f : Fault := .call (.tooDeep l.settings.maxCallDepth q.key)
  ∃ call name output m,
    Call.decoder a.machine.context.heap i.config.get? = .valid call ∧
    givenName? call.functionName = some name ∧
    q.key = functionKey l.settings.functionPrefix name ∧
    l.move (.running a callers) = some (.answering (.error f) (a :: callers)) ∧
    l.move (.answering (.error f) (a :: callers)) =
      some (.running { a with machine := m } callers) ∧
    m.pc = a.machine.pc + 1 ∧
    call.Leaves .nil
      [Call.faultRecord (some i.displayName) name f, Setup.resultRecord i output]
      a.machine.context m.context

theorem declines_of_depth (hdepth : a.depth = l.settings.maxCallDepth)
    (hi : a.instruction? = some i) (hlimit : a.machine.iterations < l.settings.maxIterations)
    (hq : (a.setup l.settings unanswered).request? i a.machine = some q) :
    l.Declines a callers i q := by
  obtain ⟨hready, hcontrol, call, hcall, hrequest⟩ := Setup.request?_eq_some hq
  obtain ⟨name, args, c, hname, hsend, rfl⟩ := Call.request?_eq_some hrequest
  unfold Declines
  dsimp only
  generalize hkey : functionKey _ name = key
  have hevaluated := Exec.evaluated_of_ok hsend
  have hlabel : c.label = some i.displayName := by rw [hevaluated]; rfl
  let f : Fault := .call (.tooDeep l.settings.maxCallDepth key)
  let o := Call.outcome c.label name key (.error f)
  have hcontained : ¬ Escapes (.error f : Except Fault RunResult) := by
    rintro ⟨_, ⟨⟩, hf⟩
    cases hf
  have hinvoke : Call.invoke (asCaller fun _ _ _ _ _ => .error f) name key args c =
      .ok (.nil, "error") (Call.afterwards o (.error f) c) :=
    Call.invoke_contained name hcontained
  have hleaves := (call.leaves_afterwards hevaluated o (.error f)).logged i
    (call.answer name key args o.status o.value)
  have hstep := Setup.step_call (s := a.setup l.settings fun _ _ _ _ _ => .error f)
    ⟨hready.going, hready.unreturned, hready.unbroken⟩ hcontrol hcall
  rw [Call.run_named hname, hsend] at hstep
  have hkey' : functionKey (a.setup l.settings fun _ _ _ _ _ => .error f).settings.functionPrefix
      name = key := hkey
  have hcaller : (a.setup l.settings fun _ _ _ _ _ => .error f).caller =
      asCaller fun _ _ _ _ _ => .error f := rfl
  simp only [hkey', hcaller, hinvoke] at hstep
  refine ⟨call, name, call.answer name key args o.status o.value,
    { Setup.visit i a.machine with
      context := Setup.logged i (.record (call.answer name key args o.status o.value))
        (Call.setResult call.result .nil (Call.afterwards o (.error f) c))
      pc := a.machine.pc + 1 }, hcall, hname, hkey.symm, ?_, ?_, rfl, ?_⟩
  · simp only [move, advance, hi, Nat.not_le.2 hlimit, if_false, hq, hkey, begin?, hdepth,
      Nat.lt_succ_self, if_true, entered]
  · simp only [move, hi, Option.bind_eq_bind, Option.bind_some, Option.pure_def]
    rw [hstep]
    rfl
  · rw [← hlabel]
    exact ⟨hleaves.results, hleaves.bound, hleaves.kept⟩

/-- The machine at the start of a run that nothing has called. -/
def opening (key : String) (instructions : List Instruction) (functionScope : Bool)
    (cancelAfter : Option Nat) (parameters : List String) (args : List Value) (heap : Heap)
    (notices : Array Diagnostic) : CallState :=
  .running (activate key 0 instructions functionScope nestingLimit cancelAfter parameters args heap
    notices) []

theorem nested_opening (l : Library) (key : String) (instructions : List Instruction)
    (functionScope : Bool) (cancelAfter : Option Nat) (parameters : List String) (args : List Value)
    (heap : Heap) (notices : Array Diagnostic) :
    l.Nested (opening key instructions functionScope cancelAfter parameters args heap notices) where
  depths := rfl
  deepest := Nat.succ_le_succ (Nat.zero_le _)
  limit := by
    rintro a (_ | ⟨_, ⟨⟩⟩)
    exact Nat.zero_le _
  waiting := by
    rintro a ⟨⟩

/-- Every run comes to an end, whatever the lookup finds and however the graphs call each other. The
machine that knows no bound but the limits of the settings halts with the result of the nested runs,
after no more moves than the limits admit. In all of its states the runs under way nest one deeper
each, none deeper than the limit, and each has taken at most as many steps as it may. A call at the
limit of depth begins no run: its caller goes on behind it with nil. -/
theorem nested_runs_terminate (l : Library) (key : String) (instructions : List Instruction)
    (functionScope : Bool) (cancelAfter : Option Nat) (parameters : List String) (args : List Value)
    (heap : Heap) (notices : Array Diagnostic) :
    let first := opening key instructions functionScope cancelAfter parameters args heap notices
    let result := (l.setup instructions functionScope cancelAfter).run parameters args heap notices
    let bound := moveBound l.settings.maxIterations l.settings.maxCallDepth
    (∃ n ≤ bound, l.Moves n first (.answering (.ok result) []) ∧
      l.move (.answering (.ok result) []) = none) ∧
    ∀ n σ, l.Moves n first σ →
      n ≤ bound ∧
      σ.active.map Activation.depth = (List.range σ.active.length).reverse ∧
      σ.active.length ≤ l.settings.maxCallDepth + 1 ∧
      (∀ a ∈ σ.active, a.machine.iterations ≤ l.settings.maxIterations) ∧
      ∀ a callers i q, σ = .running a callers → a.depth = l.settings.maxCallDepth →
        a.instruction? = some i → a.machine.iterations < l.settings.maxIterations →
        (a.setup l.settings unanswered).request? i a.machine = some q →
        l.Declines a callers i q := by
  intro first result bound
  obtain ⟨k, hk, hhalts⟩ := answers (l := l) l.settings.maxCallDepth
    (activate key 0 instructions functionScope nestingLimit cancelAfter parameters args heap notices)
    (Nat.zero_add _) []
  rw [show (activate key 0 _ _ _ _ _ _ _ _).machine.iterations = 0 from rfl, Nat.sub_zero,
    ← moveBound_eq] at hk
  have hover : l.move (.answering (.ok result) []) = none := rfl
  refine ⟨⟨k, hk, hhalts, hover⟩, fun n σ hmoves => ?_⟩
  have hnested : l.Nested σ := hmoves.keeps (fun _ _ => nested_move)
    (nested_opening l key instructions functionScope cancelAfter parameters args heap notices)
  refine ⟨(hmoves.le_of_halts hhalts hover).trans hk, hnested.depths, hnested.deepest,
    hnested.limit, ?_⟩
  rintro a callers i q rfl hdepth hi hlimit hq
  exact declines_of_depth hdepth hi hlimit hq

end Library

end NodeScript
