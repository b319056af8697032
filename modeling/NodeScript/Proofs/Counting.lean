import Mathlib
import NodeScript.Proofs.Limits.Numbers
import NodeScript.Proofs.Passes

/-!
Loops that count. The header reads the first value, the limit and the step once; from then on the
loop goes by its own cursor, which no pass can change. So the control variable runs through an
arithmetic sequence, whatever the body does to it.
-/

namespace NodeScript

/-! ### Cursors -/

namespace NumericLoop

/-- A cursor over whole numbers after so many passes. -/
def ofInts (name : String) (a b d : Int) (k : Nat) : NumericLoop :=
  ⟨name, .int (a + k * d), .int b, .int d⟩

/-- How many terms the sequence has that begins at `a`, goes by `d` and does not pass `b`. -/
def termCount (a b d : Int) : Nat :=
  (⌊((b - a : Int) : ℚ) / d⌋ + 1).toNat

theorem ofInts_advance (name : String) (a b d : Int) (k : Nat) :
    (ofInts name a b d k).advance = .ok (ofInts name a b d (k + 1)) := by
  have hadd : (Number.int (a + k * d)).add (.int d) = .ok (.int (a + (k + 1 : Nat) * d)) := by
    simp only [Number.add, Number.lift]
    congr 2
    push_cast
    ring
  simp only [advance, ofInts, hadd]
  rfl

theorem le_int (x y : Int) : (Number.int x).le (.int y) = decide (x ≤ y) := by
  simp [Number.le, Number.lt, Number.eqv, Number.fraction?, le_iff_lt_or_eq, beq_eq_decide]

theorem ofInts_inRange (name : String) {a b d : Int} (hd : d ≠ 0) (k : Nat) :
    (ofInts name a b d k).inRange = decide (k < termCount a b d) := by
  have hq : k < termCount a b d ↔ ((k : Int) : ℚ) ≤ ((b - a : Int) : ℚ) / d := by
    rw [termCount, Int.lt_toNat, Int.lt_add_one_iff, Int.le_floor]
  obtain hneg | hpos := hd.lt_or_gt
  · have hstep : (Number.int 0).lt (.int d) = false := by simpa [Number.lt] using hneg.le
    have hneg' : (d : ℚ) < 0 := by exact_mod_cast hneg
    have hk : k < termCount a b d ↔ b ≤ a + k * d := by
      rw [hq, le_div_iff_of_neg hneg']
      norm_cast
      omega
    simp [inRange, ofInts, hstep, le_int, hk]
  · have hstep : (Number.int 0).lt (.int d) = true := by simpa [Number.lt] using hpos
    have hpos' : (0 : ℚ) < d := by exact_mod_cast hpos
    have hk : k < termCount a b d ↔ a + k * d ≤ b := by
      rw [hq, le_div_iff₀ hpos']
      norm_cast
      omega
    simp [inRange, ofInts, hstep, le_int, hk]

end NumericLoop

/-! ### Headers -/

theorem headerOperand_cases (scope : Scope) (kind : SourceKind) (given absent : Value)
    (d : Draft) :
    (Source.Unreadable d.room ⟨kind, given⟩ ∧
        ∃ f d', headerOperand scope kind given absent d = .error f d') ∨
      ¬ Source.Unreadable d.room ⟨kind, given⟩ ∧
        ∃ v d', headerOperand scope kind given absent d = .ok v d' ∧ d'.room = d.room := by
  cases kind with
  | literal => exact Source.resolve_cases scope ⟨.literal, given⟩ d
  | _ =>
    refine Or.inr ⟨by simp [Source.Unreadable], ?_⟩
    cases given <;> exact ⟨_, _, rfl, rfl⟩

namespace NumericFor

variable (loop : NumericFor)

/-- The variable that a loop counts with. -/
def counter : String := nameOr loop.controlVariable "i"

def operands (scope : Scope) : Eval (Value × Value × Value) := do
  let first ← headerOperand scope loop.startKind loop.start (.int 0)
  let limit ← headerOperand scope loop.finishKind loop.finish (.int 0)
  let step ← headerOperand scope loop.stepKind loop.step (.int 1)
  return (first, limit, step)

/-- The first value, the limit and the step as they are when the header is evaluated. -/
def read : Exec (Value × Value × Value) :=
  Exec.evaluate loop.operands

/-- Some operand is a text that no literal can be read from. -/
def Unreadable (room : Nat) : Prop :=
  Source.Unreadable room ⟨loop.startKind, loop.start⟩ ∨
    Source.Unreadable room ⟨loop.finishKind, loop.finish⟩ ∨
    Source.Unreadable room ⟨loop.stepKind, loop.step⟩

/-- What is wrong with the operands of a loop. -/
def problem? (first limit step : Value) : Option String :=
  match first.toNumber?, limit.toNumber?, step.toNumber? with
  | none, _, _ => some "Invalid start value"
  | _, none, _ => some "Invalid end value"
  | _, _, none => some "Invalid step value"
  | some _, some _, some step => if step.isZero then some "Step value cannot be zero" else none

/-- What a header decides by its operands. -/
def outcome (first limit step : Value) : HeaderOutcome :=
  match first.toNumber?, limit.toNumber?, step.toNumber? with
  | none, _, _ => invalid "Invalid start value"
  | _, none, _ => invalid "Invalid end value"
  | _, _, none => invalid "Invalid step value"
  | some current, some limit, some step =>
    if step.isZero then invalid "Step value cannot be zero"
    else
      let counting : NumericLoop := ⟨nameOr loop.controlVariable "i", current, limit, step⟩
      if counting.inRange then
        .enter [(counting.controlVariable, .number current)] (.numeric counting)
      else .skip

theorem outcome_of_problem {first limit step : Value} {problem : String}
    (h : problem? first limit step = some problem) :
    loop.outcome first limit step = invalid problem := by
  unfold problem? at h
  unfold outcome
  generalize first.toNumber? = first?, limit.toNumber? = limit?, step.toNumber? = step? at h ⊢
  rcases first? with _ | _
  · cases h
    rfl
  rcases limit? with _ | _
  · cases h
    rfl
  rcases step? with _ | step
  · cases h
    rfl
  · dsimp only at h ⊢
    split at h
    · next hzero =>
      cases h
      rw [if_pos hzero]
    · cases h

/-- Something is wrong exactly if an operand is no number or the step is zero. -/
theorem problem?_isSome_iff {first limit step : Value} :
    (problem? first limit step).isSome ↔ first.toNumber? = none ∨ limit.toNumber? = none ∨
      step.toNumber? = none ∨ ∃ n, step.toNumber? = some n ∧ n.isZero = true := by
  unfold problem?
  generalize first.toNumber? = first?, limit.toNumber? = limit?, step.toNumber? = step?
  rcases first? with _ | _
  · simp
  rcases limit? with _ | _
  · simp
  rcases step? with _ | step
  · simp
  · cases hz : step.isZero <;> simp [hz]

/-- What a header decides by whole numbers. -/
theorem outcome_ofInts {first limit step : Value} {a b d : Int} (hd : d ≠ 0)
    (hfirst : first.toNumber? = some (.int a)) (hlimit : limit.toNumber? = some (.int b))
    (hstep : step.toNumber? = some (.int d)) :
    loop.outcome first limit step =
      if 0 < NumericLoop.termCount a b d then
        .enter [(loop.counter, .int a)] (.numeric (.ofInts loop.counter a b d 0))
      else .skip := by
  have hzero : (Number.int d).isZero = false := by
    simpa using mt Number.isZero_int.1 hd
  have hloop : (⟨nameOr loop.controlVariable "i", .int a, .int b, .int d⟩ : NumericLoop) =
      .ofInts loop.counter a b d 0 := by
    simp [NumericLoop.ofInts, counter]
  simp only [outcome, hfirst, hlimit, hstep, hzero, hloop, NumericLoop.ofInts_inRange _ hd,
    decide_eq_true_eq, Bool.false_eq_true, if_false]
  rfl

theorem eval_apply (scope : Scope) (d : Draft) :
    loop.eval scope d =
      match loop.operands scope d with
      | .error f d' => .error f d'
      | .ok (first, limit, step) d' => .ok (loop.outcome first limit step) d' := by
  simp only [eval, operands, bind, EStateM.bind]
  cases headerOperand scope loop.startKind loop.start (.int 0) d with
  | error f d' => rfl
  | ok first d₁ =>
    dsimp only
    cases headerOperand scope loop.finishKind loop.finish (.int 0) d₁ with
    | error f d' => rfl
    | ok limit d₂ =>
      dsimp only
      cases headerOperand scope loop.stepKind loop.step (.int 1) d₂ with
      | error f d' => rfl
      | ok step d₃ =>
        simp only [outcome, pure, EStateM.pure]
        generalize first.toNumber? = first?, limit.toNumber? = limit?, step.toNumber? = step?
        rcases first? with _ | a
        · rfl
        rcases limit? with _ | b
        · rfl
        rcases step? with _ | d
        · rfl
        dsimp only
        split_ifs <;> rfl

theorem evaluate_eq (c : Context) :
    Exec.evaluate loop.eval c =
      match loop.read c with
      | .error f c' => .error f c'
      | .ok (first, limit, step) c' => .ok (loop.outcome first limit step) c' := by
  simp only [read, Context.evaluate_apply, eval_apply]
  cases loop.operands c.scope { heap := c.heap, room := c.room } <;> rfl

theorem operands_cases (scope : Scope) (d : Draft) :
    (loop.Unreadable d.room ∧ ∃ f d', loop.operands scope d = .error f d') ∨
      ¬ loop.Unreadable d.room ∧
        ∃ first limit step d', loop.operands scope d = .ok (first, limit, step) d' := by
  simp only [operands, Unreadable, bind, EStateM.bind]
  obtain ⟨hbad, f, d', he⟩ | ⟨hfirst, first, d₁, ho, hroom₁⟩ :=
    headerOperand_cases scope loop.startKind loop.start (.int 0) d
  · exact Or.inl ⟨Or.inl hbad, f, d', by rw [he]⟩
  rw [ho]
  obtain ⟨hbad, f, d', he⟩ | ⟨hlimit, limit, d₂, ho, hroom₂⟩ :=
    headerOperand_cases scope loop.finishKind loop.finish (.int 0) d₁
  · rw [hroom₁] at hbad
    exact Or.inl ⟨Or.inr (Or.inl hbad), f, d', by simp [he]⟩
  dsimp only
  rw [ho]
  obtain ⟨hbad, f, d', he⟩ | ⟨hstep, step, d₃, ho, -⟩ :=
    headerOperand_cases scope loop.stepKind loop.step (.int 1) d₂
  · rw [hroom₂, hroom₁] at hbad
    exact Or.inl ⟨Or.inr (Or.inr hbad), f, d', by simp [he]⟩
  · rw [hroom₁] at hlimit
    rw [hroom₂, hroom₁] at hstep
    refine Or.inr ⟨?_, first, limit, step, d₃, by simp [ho]; rfl⟩
    simp [hfirst, hlimit, hstep]

theorem read_cases (c : Context) :
    (loop.Unreadable c.room ∧ ∃ f c', loop.read c = .error f c') ∨
      ¬ loop.Unreadable c.room ∧
        ∃ first limit step c', loop.read c = .ok (first, limit, step) c' ∧ c.Evaluated c' := by
  rw [read, Context.evaluate_apply]
  obtain ⟨hbad, f, d, he⟩ | ⟨hgood, first, limit, step, d, ho⟩ :=
    loop.operands_cases c.scope { heap := c.heap, room := c.room }
  · exact Or.inl ⟨hbad, f, _, by rw [he]⟩
  · exact Or.inr ⟨hgood, first, limit, step, _, by rw [ho],
      Context.evaluated_adopt { c with heap := {} } d⟩

theorem counter_ne_empty : loop.counter ≠ "" := by
  unfold counter nameOr
  split
  · decide
  · assumption

/-- What is decided in a loop that counts over whole numbers. -/
def law (a b d : Int) (k : Nat) (_ : Context) : Setup.Decision :=
  if k < NumericLoop.termCount a b d then
    some (.numeric (.ofInts loop.counter a b d k), [(loop.counter, .int (a + k * d))])
  else none

end NumericFor

/-! ### Runs -/

namespace Setup

variable {s : Setup} {i : Instruction} {m : Machine} {start last : Nat} {loop : NumericFor}
  {first limit step : Value} {c : Context} (h : s.AtLoop .numeric i start last m)
  (hloop : NumericFor.decoder i.config.get? = .valid loop)

include h hloop

theorem AtLoop.evaluate_numeric :
    i.evaluate s.settings.functionPrefix s.caller (visit i m).context =
      match loop.read (visit i m).context with
      | .error f c' => .error f c'
      | .ok (first, limit, step) c' =>
        .ok (.entry (loop.outcome first limit step).entry)
          ((loop.outcome first limit step).settle c') := by
  have hd : Handler.decoder (visit i m).context.heap .numericFor i.config.get? =
      .valid (.numericFor loop) := by
    simp only [Handler.decoder, Functor.map, hloop, Checked.map]
  rw [evaluate_header h.control rfl hd (fun _ _ => rfl), loop.evaluate_eq]
  cases loop.read (visit i m).context <;> rfl

/-- Operands with a problem: the loop is skipped, and the log says why. -/
theorem AtLoop.step_problem {problem : String}
    (hread : loop.read (visit i m).context = .ok (first, limit, step) c)
    (hc : (visit i m).context.Evaluated c)
    (hproblem : NumericFor.problem? first limit step = some problem) :
    ∃ m', s.step i m = (m', none) ∧ m'.pc = last + 1 ∧ m'.context.loops = m.context.loops ∧
      m'.context.bindings = m.context.bindings ∧
      m'.context.results = m.context.results.push (.record
        [("node", .text i.displayName), ("status", .text "error"),
         ("message", .text s!"Failed to evaluate loop parameters: {problem}")]) := by
  have he := h.evaluate_numeric hloop
  rw [hread] at he
  simp only [loop.outcome_of_problem hproblem] at he
  have hstep := h.step_skipped (by simp) he rfl rfl
  refine ⟨_, hstep, rfl, rfl, ?_, ?_⟩
  · change c.bindings = _
    rw [hc]
    rfl
  · change c.results.push _ = _
    rw [hc]
    rfl

/-- A loop over whole numbers goes by the law of its sequence. -/
theorem AtLoop.obeys_count {a b d : Int} (hd : d ≠ 0)
    (hread : loop.read (visit i m).context = .ok (first, limit, step) c)
    (hc : (visit i m).context.Evaluated c) (hfirst : first.toNumber? = some (.int a))
    (hlimit : limit.toNumber? = some (.int b)) (hstep : step.toNumber? = some (.int d)) :
    s.Obeys start last m.context.loops (loop.law a b d) m where
  setup := h.setup
  block := ⟨.numeric, h.block⟩
  first := by
    have he := h.evaluate_numeric hloop
    rw [hread] at he
    simp only [loop.outcome_ofInts hd hfirst hlimit hstep] at he
    unfold NumericFor.law
    split at he
    · next hlt =>
      rw [if_pos hlt]
      simpa using h.decides_entered (by simp) he hc rfl
    · next hlt =>
      rw [if_neg hlt]
      exact h.decides_skipped (by simp) he hc
  next := by
    intro k c' state bindings m' hlaw hpc hready hloops
    have hstate : state = .numeric (.ofInts loop.counter a b d k) := by
      unfold NumericFor.law at hlaw
      split at hlaw
      · cases hlaw
        rfl
      · cases hlaw
    subst hstate
    refine h.decides_end hpc hready hloops fun c _ => ?_
    refine (@Program.endNumericFor_apply last c _ start last m.context.loops).trans ?_
    rw [NumericLoop.ofInts_advance, NumericFor.law]
    simp only [NumericLoop.ofInts_inRange _ hd, decide_eq_true_eq]
    split <;> rfl

/-- A loop over whole numbers runs through its sequence. -/
theorem AtLoop.counts {a b d : Int} (hd : d ≠ 0)
    (hread : loop.read (visit i m).context = .ok (first, limit, step) c)
    (hc : (visit i m).context.Evaluated c) (hfirst : first.toNumber? = some (.int a))
    (hlimit : limit.toNumber? = some (.int b)) (hstep : step.toNumber? = some (.int d))
    (hcompletes : s.Completes start last m) :
    ∃ passes final, s.RunsThrough start last m passes final ∧
      passes.length = NumericLoop.termCount a b d ∧
      ∀ (k : Nat) (hk : k < passes.length),
        passes[k].1.context.bindings.get? loop.counter = some (.int (a + k * d)) := by
  have hobeys := h.obeys_count hloop hd hread hc hfirst hlimit hstep
  obtain ⟨passes, final, hruns, hlength⟩ := hobeys.runsThrough hcompletes
    (NumericLoop.termCount a b d) fun passes m' _ _ => by
      unfold NumericFor.law
      split <;> simp_all
  refine ⟨passes, final, hruns, hlength, fun k hk => ?_⟩
  obtain ⟨m', hrounds, -⟩ := hruns.rounds
  obtain ⟨decided, state, bindings, -, hlaw, hopens⟩ := hobeys.opened hrounds hk
  unfold NumericFor.law at hlaw
  split at hlaw
  · cases hlaw
    rw [hopens.bindings]
    exact Context.get?_setVariable loop.counter_ne_empty _ _
  · cases hlaw

omit h hloop

/-- A loop that counts. If an operand of its header is a text that no literal can be read from, the
run fails there. Else the operands are read once. If one of them is no number, or the step is zero,
the loop is skipped as a whole and the log says why. If they are whole numbers, and every pass
completes, the loop runs through as many passes as its sequence has terms, and whatever the passes
before have done the control variable holds the next term when a pass begins. -/
theorem counts_terms_unless_unreadable {s : Setup} {i : Instruction} {start last : Nat}
    {m : Machine} (h : s.AtLoop .numeric i start last m) {loop : NumericFor}
    (hloop : NumericFor.decoder i.config.get? = .valid loop) :
    (loop.Unreadable m.context.room ∧ ∃ m', s.step i m = (m', some .failed)) ∨
    ¬ loop.Unreadable m.context.room ∧ ∃ first limit step c,
      loop.read (visit i m).context = .ok (first, limit, step) c ∧
      (first.toNumber? = none ∨ limit.toNumber? = none ∨ step.toNumber? = none ∨
          (∃ n, step.toNumber? = some n ∧ n.isZero = true) →
        ∃ problem m', NumericFor.problem? first limit step = some problem ∧
          s.step i m = (m', none) ∧ m'.pc = last + 1 ∧ m'.context.loops = m.context.loops ∧
          m'.context.bindings = m.context.bindings ∧
          m'.context.results = m.context.results.push (.record
            [("node", .text i.displayName), ("status", .text "error"),
             ("message", .text s!"Failed to evaluate loop parameters: {problem}")])) ∧
      ∀ a b d : Int, d ≠ 0 → first.toNumber? = some (.int a) → limit.toNumber? = some (.int b) →
        step.toNumber? = some (.int d) → s.Completes start last m →
        ∃ passes final, s.RunsThrough start last m passes final ∧
          (passes.length : Int) = max 0 (⌊((b - a : Int) : ℚ) / d⌋ + 1) ∧
          ∀ (k : Nat) (hk : k < passes.length),
            passes[k].1.context.bindings.get? loop.counter = some (.int (a + k * d)) := by
  have he := h.evaluate_numeric hloop
  obtain ⟨hbad, f, c, hread⟩ | ⟨hgood, first, limit, step, c, hread, hc⟩ :=
    loop.read_cases (visit i m).context
  · rw [hread] at he
    exact Or.inl ⟨hbad, h.step_failed he⟩
  · refine Or.inr ⟨hgood, first, limit, step, c, hread, fun hwrong => ?_, ?_⟩
    · obtain ⟨problem, hproblem⟩ :=
        Option.isSome_iff_exists.1 (NumericFor.problem?_isSome_iff.2 hwrong)
      obtain ⟨m', hm'⟩ := h.step_problem hloop hread hc hproblem
      exact ⟨problem, m', hproblem, hm'⟩
    · intro a b d hd hfirst hlimit hstep hcompletes
      obtain ⟨passes, final, hruns, hlength, hterms⟩ :=
        h.counts hloop hd hread hc hfirst hlimit hstep hcompletes
      refine ⟨passes, final, hruns, ?_, hterms⟩
      rw [hlength, NumericLoop.termCount, Int.toNat_eq_max, max_comm]

/-- Goes down from `n` by two. -/
def downward : Instruction where
  tag := "forNumeric"
  config := .ofList [("controlVariable", .text "k"), ("startValue", .text "n"),
    ("startValueType", .text "variable"), ("endValue", .text "1"), ("stepValue", .text "-2")]
  runtimeId := some "header"

/-- A loop down from the parameter `n`, with a body that writes both to `n` and to the control
variable. -/
def countingDown : Setup :=
  Library.setupFor {} (fun _ key _ _ _ => .error (.call (.noLookup key)))
    [downward,
     { tag := "setVariable"
       config := .ofList [("name", .text "k"), ("value", .int 100), ("dataType", .text "number")] },
     { tag := "setVariable"
       config := .ofList [("name", .text "n"), ("value", .int 0), ("dataType", .text "number")] },
     { tag := "endFor" }] false

def countingDownStart : Machine where
  context := (countingDown.start {} #[]).bindParameters ["n"] [.int 6]

theorem countingDown_atLoop : countingDown.AtLoop .numeric downward 0 3 countingDownStart where
  setup := ⟨_, _, _, _, _, _, rfl⟩
  reachable := ⟨_, 0, begins_bindParameters _ ["n"] [.int 6] {} #[], .refl _⟩
  ready := isReady_iff.1 (by decide +kernel)
  pc := rfl
  header := rfl
  block := ⟨[], [none, none], [], rfl, .whole (.plain rfl (.plain rfl .empty)), rfl, rfl⟩

/-- It runs through six, four and two. -/
theorem countingDown_counts :
    ∃ passes final, countingDown.RunsThrough 0 3 countingDownStart passes final ∧
      passes.length = 3 ∧ ∀ (k : Nat) (hk : k < passes.length),
        passes[k].1.context.bindings.get? "k" = some (.int (6 + k * -2)) := by
  have hgoes : (countingDown.step downward countingDownStart).2 = none := by decide +kernel
  have hcompletes : countingDown.Completes 0 3 countingDownStart :=
    (completes_of_completes? (fun _ => true) 3 4 (by decide +kernel)).1
  have hloop : NumericFor.decoder downward.config.get? =
      .valid ⟨"k", .text "n", .variable, .text "1", .literal, .text "-2", .literal⟩ := by
    rfl
  obtain ⟨-, m', hstep⟩ | ⟨-, first, limit, step, c, hread, -, hcounts⟩ :=
    counts_terms_unless_unreadable countingDown_atLoop hloop
  · rw [hstep] at hgoes
    cases hgoes
  · have hvalues : (match NumericFor.read
          ⟨"k", .text "n", .variable, .text "1", .literal, .text "-2", .literal⟩
          (visit downward countingDownStart).context with
        | .ok p _ => some p
        | .error _ _ => none) = some (.int 6, .int 1, .int (-2)) := by
      decide +kernel
    rw [hread] at hvalues
    cases hvalues
    obtain ⟨passes, final, hruns, hlength, hterms⟩ :=
      hcounts 6 1 (-2) (by decide) rfl rfl rfl hcompletes
    refine ⟨passes, final, hruns, ?_, hterms⟩
    have : (⌊((1 - 6 : Int) : ℚ) / (-2 : Int)⌋ : Int) = 2 := by norm_num
    rw [this] at hlength
    exact_mod_cast hlength

end Setup

namespace Literal

open Text Number

/-- A text of so many digits. -/
def ones (n : Nat) : String := String.ofList (List.replicate n '1')

theorem spanDigits_ones (n : Nat) :
    spanDigits (List.replicate n '1') = (List.replicate n 1, []) := by
  have hdigit : digitValue? '1' = some 1 := by decide
  induction n with
  | zero => rfl
  | succ n ih => simp [List.replicate_succ, spanDigits, hdigit, ih]

theorem digitRow?_ones (n : Nat) :
    digitRow? 10 (List.replicate (n + 1) '1') = some (List.replicate (n + 1) 1) := by
  have hdigit : digitIn? 10 '1' = some 1 := by decide
  induction n with
  | zero => simp [digitRow?, hdigit]
  | succ n ih =>
    rw [List.replicate_succ] at ih ⊢
    simp only [List.replicate_succ] at ih ⊢
    simp [digitRow?, hdigit, ih]

/-- An integer of too many digits cannot be read as a literal. -/
theorem read_ones (room : Nat) {n : Nat} (hn : digitLimit < n) :
    Literal.read room (ones n) = .error (.integerTextTooLong n) := by
  obtain ⟨k, rfl⟩ : ∃ k, n = k + 1 := ⟨n - 1, by omega⟩
  have htrim : trimChars (List.replicate (k + 1) '1') = List.replicate (k + 1) '1' := by
    simp [trimChars, show isBlank '1' = false by decide]
  have hlower : lowerChars (List.replicate (k + 1) '1') = List.replicate (k + 1) '1' := by
    simp [lowerChars, show Char.toLower '1' = '1' by decide]
  have hword (w : String) (hw : w.toList.length ≤ digitLimit) : ones (k + 1) ≠ w := by
    rintro rfl
    simp [ones] at hw
    omega
  have hform : numberForm? (List.replicate (k + 1) '1') = some .whole := by
    have hspan := spanDigits_ones (k + 1)
    simp only [List.replicate_succ] at hspan ⊢
    simp [numberForm?, hspan]
  have hint : readInt 10 (List.replicate (k + 1) '1') = .error (.tooManyDigits (k + 1)) := by
    have hsign : splitSign (List.replicate (k + 1) '1') = (false, List.replicate (k + 1) '1') := by
      simp [List.replicate_succ, splitSign]
    have hbase : splitBase 10 (List.replicate (k + 1) '1') =
        (10, List.replicate (k + 1) '1') := by
      cases k with
      | zero => rfl
      | succ k => simp [List.replicate_succ, splitBase, show digitValue? '1' = some 1 by decide]
    simp [readInt, hsign, hbase, digitRow?_ones, hn, show isPowerOfTwoBase 10 = false by decide]
  have htext : String.ofList (List.replicate (k + 1) '1') = ones (k + 1) := rfl
  simp only [Literal.read, ones, String.toList_ofList, htrim, hlower, hform, readWhole, hint]
  rw [htext]
  simp [hword _ (show "true".toList.length ≤ digitLimit by decide),
    hword _ (show "false".toList.length ≤ digitLimit by decide),
    hword _ (show "nil".toList.length ≤ digitLimit by decide),
    hword _ (show "null".toList.length ≤ digitLimit by decide)]

end Literal

namespace Setup

/-- Goes up to zero from a number of so many digits, so that there is nothing to count. -/
def upward (digits : Nat) : Instruction where
  tag := "forNumeric"
  config := .ofList [("startValue", .text (Literal.ones digits)), ("endValue", .text "0")]
  runtimeId := some "header"

def countingUp (digits : Nat) : Setup :=
  Library.setupFor {} (fun _ key _ _ _ => .error (.call (.noLookup key)))
    [upward digits, { tag := "endFor" }] false

def countingUpStart (digits : Nat) : Machine where
  context := (countingUp digits).start {} #[]

theorem countingUp_atLoop (digits : Nat) :
    (countingUp digits).AtLoop .numeric (upward digits) 0 1 (countingUpStart digits) where
  setup := ⟨_, _, _, _, _, _, rfl⟩
  reachable := ⟨_, 0, begins_bindParameters _ [] [] {} #[], .refl _⟩
  ready := ⟨rfl, rfl, rfl⟩
  pc := rfl
  header := rfl
  block := ⟨[], [], [], rfl, .whole .empty, rfl, rfl⟩

theorem upward_decoded (digits : Nat) :
    NumericFor.decoder (upward digits).config.get? =
      .valid ⟨"i", .text (Literal.ones digits), .literal, .text "0", .literal, .text "1", .literal⟩ := by
  rfl

theorem step_countingUp {digits : Nat} (h : digitLimit < digits) :
    ∃ m', (countingUp digits).step (upward digits) (countingUpStart digits) =
      (m', some .failed) := by
  have he := (countingUp_atLoop digits).evaluate_numeric (upward_decoded digits)
  obtain ⟨-, f, c, hread⟩ | ⟨hgood, -⟩ := NumericFor.read_cases _ (visit (upward digits)
    (countingUpStart digits)).context
  · rw [hread] at he
    exact (countingUp_atLoop digits).step_failed he
  · exact absurd (Or.inl ⟨rfl, _, _, rfl, Literal.read_ones _ h⟩) hgood

/-- A first value of 4301 digits is a whole number like any other, and yet the run fails. -/
theorem countingUp_fails :
    (countingUp 4301).AtLoop .numeric (upward 4301) 0 1 (countingUpStart 4301) ∧
    (∃ loop, NumericFor.decoder (upward 4301).config.get? = .valid loop) ∧
    Number.spanDigits (Literal.ones 4301).toList = (List.replicate 4301 1, []) ∧
    ∃ m', (countingUp 4301).step (upward 4301) (countingUpStart 4301) = (m', some .failed) := by
  refine ⟨countingUp_atLoop 4301, ⟨_, upward_decoded 4301⟩, ?_, step_countingUp (by decide)⟩
  rw [Literal.ones, String.toList_ofList]
  exact Literal.spanDigits_ones 4301

end Setup

end NodeScript
