import NodeScript.Proofs.Mirror
import NodeScript.Proofs.Spans

/-!
The machine follows the interpretation of scripts. Wherever a part of a script stands in the flat
list, the machine goes through it as the interpreter does: it ends behind the part, or with a break
that is still pending, or where the run ends. Each round of a loop takes a step, so a run within its
limit never outlasts the fuel of the interpreter.
-/

namespace NodeScript

variable {s : Setup} {run : Library.Runner} {i : Instruction} {m m' m₁ : Machine} {w w' w₁ : Walk}
  {pc pc' n fuel finish : Nat} {loops loops' : LoopStack} {reply : Reply} {c c' : Context}

/-- How the machine goes on from a state while the interpreter goes through a part of a script that
ends at an index. -/
inductive Follows (s : Setup) (m : Machine) (finish : Nat) (loops : LoopStack) (fuel : Nat) :
    Option (Signal × Walk) → Prop
  /-- The interpreter has no answer, and the machine goes on for as long as there was fuel. -/
  | outlasts {n : Nat} {m' : Machine} (ht : s.Takes n m m') (hn : fuel ≤ n) :
      Follows s m finish loops fuel none
  | onward {n : Nat} {m' : Machine} {w : Walk} (ht : s.Takes n m m')
      (hm : Mirrors m' w finish loops) (hw : w.Ready s.functionScope) :
      Follows s m finish loops fuel (some (.onward, w))
  /-- The break is still pending, at an instruction of the part or right behind it. -/
  | broke {n pc : Nat} {m' : Machine} {w : Walk} (ht : s.Takes n m m')
      (hm : Mirrors m' { w with context := w.context.requestBreak } pc loops) (hpc : pc ≤ finish)
      (hw : w.Ready s.functionScope) : Follows s m finish loops fuel (some (.broke, w))
  | returned {n pc : Nat} {m' : Machine} {w : Walk} {inner : LoopStack} (ht : s.Takes n m m')
      (hm : Mirrors m' w pc inner) (hscope : s.functionScope = true)
      (hreturned : w.context.returned.isSome = true)
      (hbreak : w.context.breakRequested = false) :
      Follows s m finish loops fuel (some (.returned, w))
  | failed {n : Nat} {m' m'' : Machine} {i : Instruction} {w : Walk} (ht : s.Takes n m m')
      (hi : s.program.instructions[m'.pc]? = some i) (hstep : s.step i m' = (m'', some .failed))
      (ha : m''.context.Agrees w.context) : Follows s m finish loops fuel (some (.failed, w))

namespace Follows

variable {result : Option (Signal × Walk)} {finish' fuel' : Nat}

/-- Steps may come before, and each of them outlasts a round more. -/
theorem of_takes (ht : s.Takes n m m₁) (h : Follows s m₁ finish loops fuel result)
    (hfuel : fuel' ≤ n + fuel) : Follows s m finish loops fuel' result := by
  cases h with
  | outlasts ht' hn => exact .outlasts (ht.trans ht') (by omega)
  | onward ht' hm hw => exact .onward (ht.trans ht') hm hw
  | broke ht' hm hpc hw => exact .broke (ht.trans ht') hm hpc hw
  | returned ht' hm hscope hreturned hbreak =>
    exact .returned (ht.trans ht') hm hscope hreturned hbreak
  | failed ht' hi hstep ha => exact .failed (ht.trans ht') hi hstep ha

theorem after (ht : s.Takes n m m₁) (h : Follows s m₁ finish loops fuel result) :
    Follows s m finish loops fuel result :=
  h.of_takes ht (Nat.le_add_left _ _)

/-- A second part may come after. -/
theorem andThen {next : Walk → Option (Signal × Walk)}
    (h : Follows s m finish loops fuel result) (hle : finish ≤ finish')
    (hnext : ∀ m' w, Mirrors m' w finish loops → w.Ready s.functionScope →
      Follows s m' finish' loops fuel (next w)) :
    Follows s m finish' loops fuel (Script.andThen result next) := by
  cases h with
  | outlasts ht hn => exact .outlasts ht hn
  | onward ht hm hw => exact (hnext _ _ hm hw).after ht
  | broke ht hm hpc hw => exact .broke ht hm (hpc.trans hle) hw
  | returned ht hm hscope hreturned hbreak => exact .returned ht hm hscope hreturned hbreak
  | failed ht hi hstep ha => exact .failed ht hi hstep ha

end Follows

theorem Setup.Takes.one (hi : s.program.instructions[m.pc]? = some i)
    (hstep : s.step i m = (m', none)) : s.Takes 1 m m' :=
  .more hi hstep (.refl m')

theorem passUnknown_follows (hcancel : s.cancelAfter = none)
    (hinstr : s.program.instructions[pc]? = some i) (hi : Setup.isUnknown i = true)
    (hm : Mirrors m w pc loops) (hw : w.Ready s.functionScope) :
    Follows s m (pc + 1) loops fuel (some (.onward, s.host.passUnknown i pc w)) := by
  have hstep := step_ready (i := i) hcancel hm hw
  rw [Setup.dispatch, if_pos hi] at hstep
  have htakes := Setup.Takes.one (by rw [hm.pc_eq]; exact hinstr) hstep
  unfold Setup.passUnknown at htakes
  unfold Host.passUnknown
  by_cases hwarn : (s.settings.warnUnknownTypes && !w.reported.contains pc) = true
  · simp only [hwarn, if_true] at htakes
    simp only [Setup.host, hwarn, if_true]
    exact .onward htakes ⟨rfl, rfl, _, _, rfl⟩ ⟨hw.breakRequested, hw.returned⟩
  · simp only [hwarn] at htakes
    simp only [Setup.host, hwarn]
    exact .onward htakes ⟨rfl, rfl, _, _, rfl⟩ hw

/-- The machine follows a plain instruction. -/
theorem act_follows (hs : s.caller = Library.asCaller run) (hcancel : s.cancelAfter = none)
    (hinstr : s.program.instructions[pc]? = some i) (hplain : Block.isPlain i.control = true)
    (hm : Mirrors m w pc loops) (hw : w.Ready s.functionScope) :
    Follows s m (pc + 1) loops fuel (some (s.host.act i pc w)) := by
  have hpc : s.program.instructions[m.pc]? = some i := by rwa [hm.pc_eq]
  unfold Host.act
  cases hi : Setup.isUnknown i with
  | true => exact passUnknown_follows hcancel hinstr hi hm hw
  | false =>
    simp only [Bool.false_eq_true, if_false]
    rcases he : s.host.evaluate i pc w with ⟨_ | reply, w₁⟩
    · obtain ⟨m', hstep, ha⟩ := step_fails hs hcancel hm hw hi he
      exact .failed (.refl m) hpc hstep ha
    · obtain ⟨m', hstep, hm'⟩ := step_plain hs hcancel hm hw hi hplain he
      have htakes := Setup.Takes.one hpc hstep
      dsimp only
      split
      · next hreturned =>
        obtain ⟨hreturned, hscope⟩ := Bool.and_eq_true_iff.1 hreturned
        refine .returned htakes hm' hscope hreturned ?_
        -- Only a return can have filled the slot, and a return is no break.
        have hcontrol : i.control ≠ some .breakLoop := by
          intro hc
          have hgive : i.control ≠ some .giveBack := by simp [hc]
          have hkeep := evaluate_returned hs hgive pc w
          rw [he, hw.returned hscope] at hkeep
          rw [show w₁.context.returned = none from hkeep] at hreturned
          cases hreturned
        have hkeep := evaluate_breakRequested hs hcontrol pc w
        rw [he] at hkeep
        exact hkeep.trans hw.breakRequested
      · next hreturned =>
        have hslot : s.functionScope = true → w₁.context.returned = none := by
          intro hscope
          simpa [Setup.host, hscope] using hreturned
        split
        · next hbreak =>
          refine .broke htakes ?_ le_rfl ⟨rfl, hslot⟩
          have hrequest : (w₁.clearBreak.context).requestBreak = w₁.context := by
            change { w₁.context with breakRequested := true } = w₁.context
            rw [← hbreak]
          rw [hrequest]
          exact hm'
        · next hbreak => exact .onward htakes hm' ⟨by simpa using hbreak, hslot⟩

/-! ### Loops -/

/-- How the machine goes on from a state while the interpreter decides on the next round of a
loop. -/
inductive Rolls (s : Setup) (m : Machine) (kind : LoopKind) (start last : Nat)
    (loops : LoopStack) : Round × Walk → Prop
  | again {n : Nat} {m' : Machine} {w : Walk} {state : LoopState} (ht : s.Takes n m m')
      (hn : 0 < n) (hk : state.kind = kind)
      (hm : Mirrors m' w (start + 1) (⟨start, last, state⟩ :: loops))
      (hw : w.Ready s.functionScope) : Rolls s m kind start last loops (.again state, w)
  | ended {n : Nat} {m' : Machine} {w : Walk} (ht : s.Takes n m m')
      (hm : Mirrors m' w (last + 1) loops) (hw : w.Ready s.functionScope) :
      Rolls s m kind start last loops (.ended, w)
  | failed {n : Nat} {m' m'' : Machine} {i : Instruction} {w : Walk} (ht : s.Takes n m m')
      (hi : s.program.instructions[m'.pc]? = some i) (hstep : s.step i m' = (m'', some .failed))
      (ha : m''.context.Agrees w.context) : Rolls s m kind start last loops (.failed, w)

theorem Rolls.of_takes {kind : LoopKind} {start last : Nat} {result : Round × Walk}
    (ht : s.Takes n m m₁) (h : Rolls s m₁ kind start last loops result) :
    Rolls s m kind start last loops result := by
  cases h with
  | again ht' hn hk hm hw => exact .again (ht.trans ht') (by omega) hk hm hw
  | ended ht' hm hw => exact .ended (ht.trans ht') hm hw
  | failed ht' hi hstep ha => exact .failed (ht.trans ht') hi hstep ha

section Loop

variable {kind : LoopKind} {start last : Nat} {header finisher : Instruction}
  (hs : s.caller = Library.asCaller run) (hcancel : s.cancelAfter = none)
  (hheader : s.program.instructions[start]? = some header)
  (hopener : header.control = some kind.block.opener)
  (hend : Block.endAfter? s.program.marks kind.block start = some last)

theorem next_opener (p : Program) (pc : Nat) (kind : LoopKind) (reply : Reply) :
    p.next pc kind.block.opener reply =
      p.enterLoop kind.block (Host.entered? kind reply) pc := by
  cases kind with
  | whileLoop => rcases reply with _ | _ | (_ | _) | _ <;> rfl
  | numeric => rcases reply with _ | _ | _ | (_ | _ | _) <;> rfl
  | generic => rcases reply with _ | _ | _ | (_ | _ | _) <;> rfl

theorem entered?_kind {state : LoopState} (h : Host.entered? kind reply = some state) :
    state.kind = kind := by
  unfold Host.entered? at h
  split at h <;> cases h <;> rfl

theorem isUnknown_of_control {control : Control} (h : i.control = some control) :
    Setup.isUnknown i = false := by
  simp [Setup.isUnknown, h]

include hs hcancel hheader hopener hend

/-- The header is evaluated with the stack as it was before the loop, or with the frame of the loop
still on top. -/
theorem enter_rolls {before : LoopStack} (hm : Mirrors m w start before)
    (hw : w.Ready s.functionScope)
    (hpush : ∀ state : LoopState, state.kind = kind →
      (before.pushIfNew ⟨start, last, state⟩).2 = ⟨start, last, state⟩ :: loops)
    (hpop : (before.popIfStart start).2 = loops) :
    Rolls s m kind start last loops (s.host.enter kind header start w) := by
  have hpc : s.program.instructions[m.pc]? = some header := by rwa [hm.pc_eq]
  have hi := isUnknown_of_control hopener
  have hplain : Block.isPlain header.control = false := by
    rw [hopener]
    cases kind <;> rfl
  unfold Host.enter
  rcases he : s.host.evaluate header start w with ⟨_ | reply, w₁⟩
  · obtain ⟨m', hstep, ha⟩ := step_fails hs hcancel hm hw hi he
    exact .failed (.refl m) hpc hstep ha
  · have hw₁ := evaluate_ready hs hplain hw he
    dsimp only
    cases hentered : Host.entered? kind reply with
    | none =>
      have hnext : s.program.next start kind.block.opener reply (w₁.context.withLoops before) =
          .ok (last + 1) (w₁.context.withLoops loops) := by
        rw [next_opener, Program.enterLoop_apply, hend, hentered, ← hpop]
        rfl
      obtain ⟨m', hstep, hm'⟩ := step_moves hs hcancel hm hw hi hopener he hnext
      exact .ended (.one hpc hstep) hm' hw₁
    | some state =>
      have hk := entered?_kind hentered
      have hnext : s.program.next start kind.block.opener reply (w₁.context.withLoops before) =
          .ok (start + 1) (w₁.context.withLoops (⟨start, last, state⟩ :: loops)) := by
        rw [next_opener, Program.enterLoop_apply, hend, hentered, ← hpush state hk]
        rfl
      obtain ⟨m', hstep, hm'⟩ := step_moves hs hcancel hm hw hi hopener he hnext
      exact .again (.one hpc hstep) Nat.one_pos hk hm' hw₁

variable {state : LoopState} (hfinish : s.program.instructions[last]? = some finisher)
  (hterminator : finisher.control = some kind.block.terminator)
  (hm : Mirrors m w last (⟨start, last, state⟩ :: loops)) (hw : w.Ready s.functionScope)

include hfinish hterminator hm hw

/-- The end of a loop with a condition leads back to the header. -/
theorem test_rolls (hk : kind = .whileLoop) (hstate : state = .whileLoop) :
    Rolls s m kind start last loops (s.host.enter kind header start w) := by
  subst hk hstate
  have hpc : s.program.instructions[m.pc]? = some finisher := by rwa [hm.pc_eq]
  have hnext : s.program.next last .endWhile .nothing
      ((w.visit finisher last).context.withLoops (⟨start, last, .whileLoop⟩ :: loops)) =
      .ok start ((w.visit finisher last).context.withLoops
        (⟨start, last, .whileLoop⟩ :: loops)) := rfl
  obtain ⟨m', hstep, hm'⟩ := step_moves hs hcancel hm hw (isUnknown_of_control hterminator)
    hterminator (evaluate_mark hterminator rfl last w) hnext
  refine .of_takes (.one hpc hstep)
    (enter_rolls hs hcancel hheader hopener hend hm'.of_visit hw ?_ ?_)
  · intro state hk
    obtain rfl : state = .whileLoop := by cases state <;> simp_all [LoopState.kind]
    simp [LoopStack.pushIfNew]
  · simp [LoopStack.popIfStart]

omit hheader hopener hend in
/-- The end of a loop that counts. -/
theorem count_rolls (hk : kind = .numeric) {loop : NumericLoop} (hstate : state = .numeric loop) :
    Rolls s m kind start last loops (Host.count loop (w.visit finisher last)) := by
  subst hk hstate
  have hpc : s.program.instructions[m.pc]? = some finisher := by rwa [hm.pc_eq]
  have hi := isUnknown_of_control hterminator
  have he := evaluate_mark (s := s) hterminator rfl last w
  have hnext := @Program.endNumericFor_apply last (w.visit finisher last).context loop start last
    loops
  unfold Host.count
  cases ha : loop.advance with
  | error f =>
    rw [ha] at hnext
    obtain ⟨m', hstep, hagrees⟩ := step_stops hs hcancel hm hw hi hterminator he hnext
    exact .failed (.refl m) hpc hstep hagrees
  | ok next =>
    rw [ha] at hnext
    dsimp only at hnext ⊢
    split
    · next hin =>
      rw [if_pos hin, setVariables_withLoops] at hnext
      obtain ⟨m', hstep, hm'⟩ := step_moves hs hcancel hm hw hi hterminator he hnext
      exact .again (.one hpc hstep) Nat.one_pos rfl hm' ((hw.visit finisher last).setVariables _)
    · next hin =>
      rw [if_neg hin] at hnext
      obtain ⟨m', hstep, hm'⟩ := step_moves hs hcancel hm hw hi hterminator he hnext
      exact .ended (.one hpc hstep) hm' (hw.visit finisher last)

omit hheader hopener hend in
/-- The end of a loop over a table. -/
theorem iterate_rolls (hk : kind = .generic) {loop : GenericLoop}
    (hstate : state = .generic loop) :
    Rolls s m kind start last loops (Host.iterate loop (w.visit finisher last)) := by
  subst hk hstate
  have hpc : s.program.instructions[m.pc]? = some finisher := by rwa [hm.pc_eq]
  have hi := isUnknown_of_control hterminator
  have he := evaluate_mark (s := s) hterminator rfl last w
  have hnext := @Program.endGenericFor_apply last (w.visit finisher last).context loop start last
    loops
  unfold Host.iterate
  generalize loop.advance (w.visit finisher last).context.heap = r at hnext ⊢
  obtain ⟨found, next⟩ := r
  cases found with
  | error f =>
    obtain ⟨m', hstep, hagrees⟩ := step_stops hs hcancel hm hw hi hterminator he hnext
    exact .failed (.refl m) hpc hstep hagrees
  | ok found =>
    cases found with
    | some entry =>
      obtain ⟨k, v⟩ := entry
      dsimp only at hnext ⊢
      rw [setVariables_withLoops] at hnext
      obtain ⟨m', hstep, hm'⟩ := step_moves hs hcancel hm hw hi hterminator he hnext
      exact .again (.one hpc hstep) Nat.one_pos rfl hm' ((hw.visit finisher last).setVariables _)
    | none =>
      obtain ⟨m', hstep, hm'⟩ := step_moves hs hcancel hm hw hi hterminator he hnext
      exact .ended (.one hpc hstep) hm' (hw.visit finisher last)

theorem advance_rolls (hk : state.kind = kind) :
    Rolls s m kind start last loops (s.host.advance header start finisher last state w) := by
  cases state with
  | whileLoop =>
    subst hk
    exact test_rolls hs hcancel hheader hopener hend hfinish hterminator hm hw rfl rfl
  | numeric loop => exact count_rolls hs hcancel hfinish hterminator hm hw hk.symm rfl
  | generic loop => exact iterate_rolls hs hcancel hfinish hterminator hm hw hk.symm rfl

end Loop

/-- The machine follows the rounds of a loop if it follows the body and what comes between two
rounds. Every round takes a step, so that `left` rounds outlast as many steps. -/
theorem rounds_follows {kind : LoopKind} {start last left : Nat} {state : LoopState}
    {body : Walk → Option (Signal × Walk)} {advance : LoopState → Walk → Round × Walk}
    (hcancel : s.cancelAfter = none) (hsize : last < s.program.size)
    (hbody : ∀ m w state, Mirrors m w (start + 1) (⟨start, last, state⟩ :: loops) →
      w.Ready s.functionScope → Follows s m last (⟨start, last, state⟩ :: loops) fuel (body w))
    (hadvance : ∀ m w state, Mirrors m w last (⟨start, last, state⟩ :: loops) →
      w.Ready s.functionScope → state.kind = kind →
      Rolls s m kind start last loops (advance state w))
    (hleft : left ≤ fuel) (hk : state.kind = kind)
    (hm : Mirrors m w (start + 1) (⟨start, last, state⟩ :: loops))
    (hw : w.Ready s.functionScope) :
    Follows s m (last + 1) loops left (Script.rounds body advance left state w) := by
  induction left generalizing m w state with
  | zero => exact .outlasts (.refl m) (Nat.zero_le _)
  | succ left ih =>
    have hround := hbody m w state hm hw
    unfold Script.rounds
    generalize body w = result at hround ⊢
    cases hround with
    | outlasts ht hn => exact .outlasts ht (by omega)
    | @onward n m₁ w₁ ht hm₁ hw₁ =>
      have hroll := hadvance m₁ w₁ state hm₁ hw₁ hk
      dsimp only
      generalize advance state w₁ = result at hroll ⊢
      cases hroll with
      | again ht' hn hk' hm' hw' =>
        exact (ih (by omega) hk' hm' hw').of_takes (ht.trans ht') (by omega)
      | ended ht' hm' hw' => exact .onward (ht.trans ht') hm' hw'
      | failed ht' hi hstep ha => exact .failed (ht.trans ht') hi hstep ha
    | @broke n pc m₁ w₁ ht hm₁ hpc hw₁ =>
      have hlt : m₁.pc < s.program.instructions.size := by
        rw [hm₁.pc_eq]
        exact Nat.lt_of_le_of_lt hpc hsize
      obtain ⟨m', hstep, hm'⟩ := step_break (i := s.program.instructions[m₁.pc]) hcancel hm₁ hw₁
      exact .onward (ht.trans (.one (Array.getElem?_eq_getElem hlt) hstep)) hm' hw₁
    | returned ht hm₁ hscope hreturned hbreak =>
      exact .returned ht hm₁ hscope hreturned hbreak
    | failed ht hi hstep ha => exact .failed ht hi hstep ha

/-! ### Scripts -/

/-- A part of the instructions stands at an index. -/
def Stands (instructions : List Instruction) (index : Nat) (part : List Instruction) : Prop :=
  ∃ before after, instructions = before ++ (part ++ after) ∧ before.length = index

namespace Stands

variable {instructions part first second : List Instruction} {index : Nat}

theorem left (h : Stands instructions index (first ++ second)) :
    Stands instructions index first := by
  obtain ⟨before, after, rfl, rfl⟩ := h
  exact ⟨before, second ++ after, by simp, rfl⟩

theorem right (h : Stands instructions index (first ++ second)) :
    Stands instructions (index + first.length) second := by
  obtain ⟨before, after, rfl, rfl⟩ := h
  exact ⟨before ++ first, after, by simp, by simp⟩

theorem tail (h : Stands instructions index (i :: part)) :
    Stands instructions (index + 1) part := by
  have hsplit : Stands instructions index ([i] ++ part) := h
  exact hsplit.right

variable {j : Instruction} {rest : List Instruction}
  (hprogram : s.program = .ofInstructions instructions)

include hprogram

/-- The machine finds the instruction with its identifier. -/
theorem getElem? (h : Stands instructions index (i :: part)) :
    s.program.instructions[index]? = some (Program.identify i index) := by
  obtain ⟨before, after, rfl, rfl⟩ := h
  simp [hprogram, Program.ofInstructions]

/-- The scans of the machine find the marks of a block that stands in the list. -/
theorem endAfter? {kind : BlockKind} (h : Stands instructions index (i :: (part ++ j :: rest)))
    (hj : j.control = some kind.terminator)
    (hpart : Block.Inside kind (part.map Instruction.control)) :
    Block.endAfter? s.program.marks kind index = some (index + 1 + part.length) := by
  obtain ⟨before, after, rfl, rfl⟩ := h
  have hscan := Block.endAfter?_inside (before.map Instruction.control)
    ((rest ++ after).map Instruction.control) i.control hpart
  simpa [hprogram, Program.ofInstructions, hj] using hscan

theorem elseOrEndAfter? {stop : Control} (h : Stands instructions index (i :: (part ++ j :: rest)))
    (hi : i.control = some .branch) (hj : j.control = some stop)
    (hstop : stop = .otherwise ∨ stop = .endBranch)
    (hpart : Block.Nested (part.map Instruction.control)) :
    Block.elseOrEndAfter? s.program.marks index = some (index + 1 + part.length) := by
  obtain ⟨before, after, rfl, rfl⟩ := h
  have hscan := Block.elseOrEndAfter?_first (before.map Instruction.control)
    ((rest ++ after).map Instruction.control) hpart hstop
  simpa [hprogram, Program.ofInstructions, hi, hj] using hscan

end Stands

namespace Script

@[simp] theorem size_act (i : Instruction) (hi : Block.isPlain i.control = true) (rest : Script) :
    size (.act i hi rest) = rest.size + 1 := rfl

@[simp] theorem size_branch (header : Marked (some .branch)) (body : Script)
    (finish : Marked (some .endBranch)) (rest : Script) :
    size (.branch header body finish rest) = body.size + rest.size + 2 := by
  simp [size, flatten]
  omega

@[simp] theorem size_choice (header : Marked (some .branch)) (body : Script)
    (middle : Marked (some .otherwise)) (other : Script) (finish : Marked (some .endBranch))
    (rest : Script) :
    size (.choice header body middle other finish rest) =
      body.size + other.size + rest.size + 3 := by
  simp [size, flatten]
  omega

@[simp] theorem size_loop (kind : LoopKind) (header : Marked (some kind.block.opener))
    (body : Script) (finish : Marked (some kind.block.terminator)) (rest : Script) :
    size (.loop kind header body finish rest) = body.size + rest.size + 2 := by
  simp [size, flatten]
  omega

end Script

/-- A mark that only sends control to another index. -/
theorem mark_takes (hs : s.caller = Library.asCaller run) (hcancel : s.cancelAfter = none)
    (hinstr : s.program.instructions[pc]? = some i) {control : Control}
    (hi : i.control = some control) (hk : HandlerKind.ofControl? control = none)
    (hnext : ∀ c, s.program.next pc control .nothing c = .ok pc' c)
    (hm : Mirrors m w pc loops) (hw : w.Ready s.functionScope) :
    ∃ m', s.Takes 1 m m' ∧ Mirrors m' w pc' loops := by
  obtain ⟨m', hstep, hm'⟩ := step_moves hs hcancel hm hw (isUnknown_of_control hi) hi
    (evaluate_mark hi hk pc w) (hnext _)
  exact ⟨m', .one (by rwa [hm.pc_eq]) hstep, hm'.of_visit⟩

/-- Wherever a script stands, the machine follows its interpretation. The loops in progress have
begun before. -/
def Script.Followed (s : Setup) (instructions : List Instruction) (fuel : Nat) (script : Script) :
    Prop :=
  ∀ index m w loops, Stands instructions index script.flatten → Mirrors m w index loops →
    w.Ready s.functionScope → (∀ f ∈ loops.head?, f.start < index) →
    Follows s m (index + script.size) loops fuel (script.run s.host fuel index w)

namespace Script

variable {instructions : List Instruction} {kind : LoopKind} {body other rest : Script}
  (hs : s.caller = Library.asCaller run) (hcancel : s.cancelAfter = none)
  (hprogram : s.program = .ofInstructions instructions)

/-- A loop that begins behind all loops in progress is new to the stack. -/
theorem pushIfNew_new {index last : Nat} {state : LoopState}
    (h : ∀ f ∈ loops.head?, f.start < index) :
    (loops.pushIfNew ⟨index, last, state⟩).2 = ⟨index, last, state⟩ :: loops := by
  cases loops with
  | nil => rfl
  | cons top outer => simp [LoopStack.pushIfNew, (h top rfl).ne]

theorem popIfStart_new {index : Nat} (h : ∀ f ∈ loops.head?, f.start < index) :
    (loops.popIfStart index).2 = loops := by
  cases loops with
  | nil => rfl
  | cons top outer => simp [LoopStack.popIfStart, (h top rfl).ne]

theorem start_lt_mono {index index' : Nat} (h : ∀ f ∈ loops.head?, f.start < index)
    (hle : index ≤ index') : ∀ f ∈ loops.head?, f.start < index' := by
  intro f hf
  have := h f hf
  omega

include hs hcancel hprogram

theorem act_followed (hi : Block.isPlain i.control = true)
    (hrest : rest.Followed s instructions fuel) :
    (act i hi rest).Followed s instructions fuel := by
  intro index m w loops hstands hm hw hloops
  have hact : Follows s m (index + 1) loops fuel
      (some (s.host.act (Program.identify i index) index w)) :=
    act_follows hs hcancel (hstands.getElem? hprogram) (by simpa using hi) hm hw
  rw [size_act, Nat.add_comm rest.size, ← Nat.add_assoc]
  exact hact.andThen (by omega) fun m' w' hm' hw' =>
    hrest _ m' w' loops hstands.tail hm' hw' (start_lt_mono hloops (by omega))

omit hprogram in
/-- The header of a branch that stands at an index: it fails, or its condition is met and the first
part follows, or control goes on where the scan for the end of that part leads. -/
theorem header_follows {header : Instruction} {index target : Nat}
    (hinstr : s.program.instructions[index]? = some header)
    (hheader : header.control = some .branch)
    (hscan : Block.elseOrEndAfter? s.program.marks index = some target)
    (hm : Mirrors m w index loops) (hw : w.Ready s.functionScope)
    {taken passed : Walk → Option (Signal × Walk)}
    (htaken : ∀ m' w', Mirrors m' w' (index + 1) loops → w'.Ready s.functionScope →
      Follows s m' finish loops fuel (taken w'))
    (hpassed : ∀ m' w', Mirrors m' w' (target + 1) loops → w'.Ready s.functionScope →
      Follows s m' finish loops fuel (passed w')) :
    Follows s m finish loops fuel
      (match s.host.evaluate header index w with
        | (none, w) => some (.failed, w)
        | (some (.truth true), w) => taken w
        | (some _, w) => passed w) := by
  have hpc : s.program.instructions[m.pc]? = some header := by rwa [hm.pc_eq]
  have hi := isUnknown_of_control hheader
  have hplain : Block.isPlain header.control = false := by
    rw [hheader]
    rfl
  rcases he : s.host.evaluate header index w with ⟨_ | reply, w₁⟩
  · obtain ⟨m', hstep, ha⟩ := step_fails hs hcancel hm hw hi he
    exact .failed (.refl m) hpc hstep ha
  · have hw₁ := evaluate_ready hs hplain hw he
    by_cases hmet : reply = .truth true
    · subst hmet
      obtain ⟨m', hstep, hm'⟩ := step_moves hs hcancel hm hw hi hheader he
        (rfl : _ = EStateM.Result.ok (index + 1) (w₁.context.withLoops loops))
      exact (htaken m' w₁ hm' hw₁).after (.one hpc hstep)
    · have hnext : s.program.next index .branch reply (w₁.context.withLoops loops) =
          .ok (target + 1) (w₁.context.withLoops loops) := by
        rcases reply with _ | _ | (_ | _) | _ <;> simp_all [Program.next, pure, EStateM.pure]
      obtain ⟨m', hstep, hm'⟩ := step_moves hs hcancel hm hw hi hheader he hnext
      have hfollows := (hpassed m' w₁ hm' hw₁).after (.one hpc hstep)
      rcases reply with _ | _ | (_ | _) | _ <;> simp_all

/-- From the end of a branch on. -/
theorem endBranch_follows {i : Instruction} {last : Nat} (hi : i.control = some .endBranch)
    (hrest : rest.Followed s instructions fuel)
    (hstands : Stands instructions last (i :: rest.flatten))
    (hloops : ∀ f ∈ loops.head?, f.start < last) (hm : Mirrors m w last loops)
    (hw : w.Ready s.functionScope) :
    Follows s m (last + 1 + rest.size) loops fuel (rest.run s.host fuel (last + 1) w) := by
  have hnext (c : Context) : s.program.next last .endBranch .nothing c = .ok (last + 1) c := rfl
  obtain ⟨m₁, htakes, hm₁⟩ := mark_takes hs hcancel (hstands.getElem? hprogram)
    (by simpa using hi) rfl hnext hm hw
  exact .after htakes (hrest _ m₁ w loops hstands.tail hm₁ hw (start_lt_mono hloops (by omega)))

theorem branch_followed {header : Marked (some .branch)} {finish : Marked (some .endBranch)}
    (hbody : body.Followed s instructions fuel) (hrest : rest.Followed s instructions fuel) :
    (branch header body finish rest).Followed s instructions fuel := by
  intro index m w loops hstands hm hw hloops
  have hlast : Stands instructions (index + 1 + body.size) (finish.val :: rest.flatten) :=
    hstands.tail.right
  have hscan : Block.elseOrEndAfter? s.program.marks index = some (index + 1 + body.size) :=
    hstands.elseOrEndAfter? hprogram header.2 finish.2 (Or.inr rfl) body.nested_marks
  have hsize : index + size (branch header body finish rest) =
      index + 1 + body.size + 1 + rest.size := by
    simp only [size_branch]
    omega
  rw [hsize]
  refine header_follows hs hcancel (hstands.getElem? hprogram)
    (by simpa using header.2) hscan hm hw ?_ ?_
  · intro m₁ w₁ hm₁ hw₁
    exact (hbody _ m₁ w₁ loops hstands.tail.left hm₁ hw₁ (start_lt_mono hloops (by omega))).andThen
      (by omega) fun m₂ w₂ hm₂ hw₂ =>
        endBranch_follows hs hcancel hprogram finish.2 hrest hlast
          (start_lt_mono hloops (by omega)) hm₂ hw₂
  · intro m₁ w₁ hm₁ hw₁
    exact hrest _ m₁ w₁ loops hlast.tail hm₁ hw₁ (start_lt_mono hloops (by omega))

theorem choice_followed {header : Marked (some .branch)} {middle : Marked (some .otherwise)}
    {finish : Marked (some .endBranch)} (hbody : body.Followed s instructions fuel)
    (hother : other.Followed s instructions fuel) (hrest : rest.Followed s instructions fuel) :
    (choice header body middle other finish rest).Followed s instructions fuel := by
  intro index m w loops hstands hm hw hloops
  have hmiddle : Stands instructions (index + 1 + body.size)
      (middle.val :: (other.flatten ++ finish.val :: rest.flatten)) := hstands.tail.right
  have hlast : Stands instructions (index + 1 + body.size + 1 + other.size)
      (finish.val :: rest.flatten) := hmiddle.tail.right
  have hscan : Block.elseOrEndAfter? s.program.marks index = some (index + 1 + body.size) :=
    hstands.elseOrEndAfter? hprogram header.2 middle.2 (Or.inl rfl) body.nested_marks
  have hend : Block.endAfter? s.program.marks .branch (index + 1 + body.size) =
      some (index + 1 + body.size + 1 + other.size) :=
    hmiddle.endAfter? hprogram finish.2 (.whole other.nested_marks)
  -- An `else` that is reached from above leads behind the branch.
  have hnext (c : Context) : s.program.next (index + 1 + body.size) .otherwise .nothing c =
      .ok (index + 1 + body.size + 1 + other.size + 1) c := by
    simp only [Program.next, bind, EStateM.bind, Program.blockEnd_apply, hend]
    rfl
  have hsize : index + size (choice header body middle other finish rest) =
      index + 1 + body.size + 1 + other.size + 1 + rest.size := by
    simp only [size_choice]
    omega
  rw [hsize]
  refine header_follows hs hcancel (hstands.getElem? hprogram)
    (by simpa using header.2) hscan hm hw ?_ ?_
  · intro m₁ w₁ hm₁ hw₁
    refine (hbody _ m₁ w₁ loops hstands.tail.left hm₁ hw₁ (start_lt_mono hloops (by omega))).andThen
      (by omega) fun m₂ w₂ hm₂ hw₂ => ?_
    obtain ⟨m₃, htakes, hm₃⟩ := mark_takes hs hcancel (hmiddle.getElem? hprogram)
      (by simpa using middle.2) rfl hnext hm₂ hw₂
    exact .after htakes
      (hrest _ m₃ w₂ loops hlast.tail hm₃ hw₂ (start_lt_mono hloops (by omega)))
  · intro m₁ w₁ hm₁ hw₁
    exact (hother _ m₁ w₁ loops hmiddle.tail.left hm₁ hw₁ (start_lt_mono hloops (by omega))).andThen
      (by omega) fun m₂ w₂ hm₂ hw₂ =>
        endBranch_follows hs hcancel hprogram finish.2 hrest hlast
          (start_lt_mono hloops (by omega)) hm₂ hw₂

theorem loop_followed {header : Marked (some kind.block.opener)}
    {finish : Marked (some kind.block.terminator)} (hbody : body.Followed s instructions fuel)
    (hrest : rest.Followed s instructions fuel) :
    (loop kind header body finish rest).Followed s instructions fuel := by
  intro index m w loops hstands hm hw hloops
  have hlast : Stands instructions (index + 1 + body.size) (finish.val :: rest.flatten) :=
    hstands.tail.right
  have hheader := hstands.getElem? hprogram
  have hfinish := hlast.getElem? hprogram
  have hopener : (Program.identify header.val index).control = some kind.block.opener := by
    simpa using header.2
  have hterminator : (Program.identify finish.val (index + 1 + body.size)).control =
      some kind.block.terminator := by
    simpa using finish.2
  have hend : Block.endAfter? s.program.marks kind.block index =
      some (index + 1 + body.size) :=
    hstands.endAfter? hprogram finish.2 (.whole body.nested_marks)
  have hsize : index + size (loop kind header body finish rest) =
      index + 1 + body.size + 1 + rest.size := by
    simp only [size_loop]
    omega
  rw [hsize]
  have hroll := enter_rolls hs hcancel hheader hopener hend hm hw
    (fun _ _ => pushIfNew_new hloops) (popIfStart_new hloops)
  unfold Script.run
  dsimp only
  generalize s.host.enter kind (Program.identify header.val index) index w = result at hroll ⊢
  cases hroll with
  | failed ht hi hstep ha => exact .failed ht hi hstep ha
  | @ended n m₁ w₁ ht hm₁ hw₁ =>
    exact .after ht (hrest _ m₁ w₁ loops hlast.tail hm₁ hw₁ (start_lt_mono hloops (by omega)))
  | @again n m₁ w₁ state ht hn hk hm₁ hw₁ =>
    have hrounds := rounds_follows hcancel (Array.getElem?_eq_some_iff.1 hfinish).1
      (fun m w state hm hw => hbody _ m w _ hstands.tail.left hm hw (by simp))
      (fun m w state hm hw hk => advance_rolls hs hcancel hheader hopener hend hfinish hterminator
        hm hw hk)
      le_rfl hk hm₁ hw₁
    exact .after ht (hrounds.andThen (by omega) fun m₂ w₂ hm₂ hw₂ =>
      hrest _ m₂ w₂ loops hlast.tail hm₂ hw₂ (start_lt_mono hloops (by omega)))

/-- The machine follows every script, wherever it stands. -/
theorem followed (script : Script) : script.Followed s instructions fuel := by
  induction script with
  | done =>
    intro index m w loops _ hm hw _
    exact .onward (.refl m) hm hw
  | act i hi rest ih => exact act_followed hs hcancel hprogram hi ih
  | branch header body finish rest ihb ihr => exact branch_followed hs hcancel hprogram ihb ihr
  | choice header body middle other finish rest ihb iho ihr =>
    exact choice_followed hs hcancel hprogram ihb iho ihr
  | loop kind header body finish rest ihb ihr => exact loop_followed hs hcancel hprogram ihb ihr

end Script

end NodeScript
