import NodeScript.Proofs.Steps

/-!
The order of the loops in progress, for any instruction list. Frames lie on the stack in the order
of their headers, each with the block of its header, and control is behind the innermost header or,
at a condition that is tested again, on it.
-/

namespace NodeScript

variable {marks : List Mark} {pc pc' : Nat} {m : Mark} {loops loops' rest : LoopStack}
  {frame : LoopFrame}

namespace Block

theorem closing?_lt {kind : BlockKind} {depth offset : Nat} {ms : List Mark}
    (h : closing? kind depth ms = some offset) : offset < ms.length := by
  induction ms generalizing depth offset with
  | nil => cases h
  | cons m ms ih => cases depth <;> grind [closing?, Option.map_eq_some_iff]

theorem elseOrClosing?_lt {depth offset : Nat} {ms : List Mark}
    (h : elseOrClosing? depth ms = some offset) : offset < ms.length := by
  induction ms generalizing depth offset with
  | nil => cases h
  | cons m ms ih => cases depth <;> grind [elseOrClosing?, Option.map_eq_some_iff]

theorem endAfter?_bounds {kind : BlockKind} {start finish : Nat}
    (h : endAfter? marks kind start = some finish) : start < finish ∧ finish < marks.length := by
  obtain ⟨offset, ho, rfl⟩ := Option.map_eq_some_iff.1 h
  have hlt := closing?_lt ho
  simp only [List.length_drop] at hlt
  omega

theorem elseOrEndAfter?_bounds {start target : Nat}
    (h : elseOrEndAfter? marks start = some target) : start < target ∧ target < marks.length := by
  unfold elseOrEndAfter? at h
  split at h
  · obtain ⟨offset, ho, rfl⟩ := Option.map_eq_some_iff.1 h
    have hlt := elseOrClosing?_lt ho
    simp only [List.length_drop] at hlt
    omega
  · cases h

/-- Whether a mark opens a loop. -/
def opensLoop (m : Mark) : Bool :=
  m = some .whileLoop || m = some .numericFor || m = some .genericFor

theorem opensLoop_opener (kind : LoopKind) : opensLoop (some kind.block.opener) = true := by
  cases kind <;> rfl

end Block

/-- A frame belongs to the loop block at its header, from there to the block's own end. -/
structure LoopFrame.Fits (marks : List Mark) (f : LoopFrame) : Prop where
  start_nonneg : 0 ≤ f.start
  start_lt : f.start < f.finish
  finish_lt : f.finish < marks.length
  header : marks[f.start.toNat]? = some (some f.state.kind.block.opener)
  own_end : Block.endAfter? marks f.state.kind.block f.start.toNat = some f.finish.toNat

/-- The loops in progress while control is at `pc`. -/
structure LoopStack.Ordered (marks : List Mark) (pc : Nat) (loops : LoopStack) : Prop where
  pc_le : pc ≤ marks.length
  /-- From the outermost loop to the innermost. -/
  starts : loops.reverse.Pairwise fun outer inner => outer.start < inner.start
  fits : ∀ f ∈ loops, f.Fits marks
  /-- Only the condition of a loop is visited while its own loop is in progress. -/
  top : ∀ f ∈ loops.head?, f.start < pc ∨ f.state.kind = .whileLoop ∧ f.start = pc

namespace LoopStack.Ordered

theorem mono (h : Ordered marks pc loops) (hlt : pc < pc') (hpc : pc' ≤ marks.length) :
    Ordered marks pc' loops where
  pc_le := hpc
  starts := h.starts
  fits := h.fits
  top f hf := by
    obtain hlt' | ⟨-, heq⟩ := h.top f hf
    · left; omega
    · left; omega

theorem cons_iff : Ordered marks pc (frame :: rest) ↔
    pc ≤ marks.length ∧ frame.Fits marks ∧
      (frame.start < pc ∨ frame.state.kind = .whileLoop ∧ frame.start = pc) ∧
      (∀ f ∈ rest, f.start < frame.start) ∧ (∀ f ∈ rest, f.Fits marks) ∧
      rest.reverse.Pairwise (fun outer inner => outer.start < inner.start) := by
  constructor
  · rintro ⟨hpc, hs, hf, ht⟩
    simp only [List.reverse_cons, List.pairwise_append, List.mem_reverse, List.mem_singleton,
      forall_eq] at hs
    simp_all
  · rintro ⟨hpc, hframe, htop, hbelow, hrest, hs⟩
    refine ⟨hpc, ?_, ?_, ?_⟩
    · simpa [List.pairwise_append] using ⟨hs, hbelow⟩
    · simpa using ⟨hframe, hrest⟩
    · simpa using htop

/-- Once the innermost loop is left, control is behind its end. -/
theorem tail (h : Ordered marks pc (frame :: rest)) : Ordered marks frame.exitIndex rest := by
  obtain ⟨-, hframe, -, hbelow, hrest, hs⟩ := cons_iff.1 h
  have hlt := hframe.start_lt
  have hfinish := hframe.finish_lt
  have hnonneg := hframe.start_nonneg
  refine ⟨by unfold LoopFrame.exitIndex; omega, hs, hrest, fun f hf => Or.inl ?_⟩
  have := hbelow f (List.mem_of_mem_head? hf)
  unfold LoopFrame.exitIndex
  omega

theorem pushIfNew (h : Ordered marks pc loops) {finish : Nat} {state : LoopState}
    (hm : marks[pc]? = some (some state.kind.block.opener))
    (he : Block.endAfter? marks state.kind.block pc = some finish) :
    Ordered marks (pc + 1) (loops.pushIfNew ⟨pc, finish, state⟩).2 := by
  obtain ⟨hlt, hfinish⟩ := Block.endAfter?_bounds he
  have hfits : LoopFrame.Fits marks ⟨pc, finish, state⟩ :=
    ⟨by simp, by simpa using hlt, by simpa using hfinish, hm, he⟩
  have hpc : pc + 1 ≤ marks.length := by omega
  cases loops with
  | nil => exact cons_iff.2 ⟨hpc, hfits, by simp, by simp, by simp, by simp⟩
  | cons frame rest =>
    by_cases hstart : frame.start = pc
    · simpa [LoopStack.pushIfNew, hstart] using h.mono (Nat.lt_succ_self pc) hpc
    · obtain ⟨-, hframe, htop, hbelow, hrest, hs⟩ := cons_iff.1 h
      have hbefore : frame.start < pc := by
        obtain hlt' | ⟨-, heq⟩ := htop
        · exact hlt'
        · exact absurd heq hstart
      simp only [LoopStack.pushIfNew, hstart, if_false]
      refine cons_iff.2 ⟨hpc, hfits, by simp, ?_, h.fits, h.starts⟩
      intro f hf
      obtain rfl | hf := List.mem_cons.1 hf
      · exact hbefore
      · exact (hbelow f hf).trans hbefore

theorem popIfStart (h : Ordered marks pc loops) (hlt : pc < pc') (hpc : pc' ≤ marks.length) :
    Ordered marks pc' (loops.popIfStart pc).2 := by
  cases loops with
  | nil => exact h.mono hlt hpc
  | cons frame rest =>
    by_cases hstart : frame.start = pc
    · obtain ⟨-, -, -, hbelow, hrest, hs⟩ := cons_iff.1 h
      simp only [LoopStack.popIfStart, hstart, if_true]
      refine ⟨hpc, hs, hrest, fun f hf => Or.inl ?_⟩
      have := hbelow f (List.mem_of_mem_head? hf)
      omega
    · simpa [LoopStack.popIfStart, hstart] using h.mono hlt hpc

/-- Every way in which control goes on keeps the order. -/
theorem turn (h : Ordered marks pc loops) (hm : marks[pc]? = some m)
    (ht : Turn marks pc m loops pc' loops') : Ordered marks pc' loops' := by
  have hpc : pc < marks.length := (List.getElem?_eq_some_iff.1 hm).1
  cases ht with
  | onward => exact h.mono (Nat.lt_succ_self pc) hpc
  | skipBranch he =>
    obtain ⟨hlt, htarget⟩ := Block.elseOrEndAfter?_bounds he
    exact h.mono (by omega) htarget
  | skipElse he =>
    obtain ⟨hlt, htarget⟩ := Block.endAfter?_bounds he
    exact h.mono (by omega) htarget
  | enter state he => exact h.pushIfNew hm he
  | pass kind he =>
    obtain ⟨hlt, htarget⟩ := Block.endAfter?_bounds he
    exact h.popIfStart (by omega) htarget
  | @test rest frame hk =>
    obtain ⟨-, hframe, -, hrest⟩ := cons_iff.1 h
    have hnonneg := hframe.start_nonneg
    have hlt := hframe.start_lt
    have hfinish := hframe.finish_lt
    refine cons_iff.2 ⟨?_, hframe, Or.inr ⟨hk, ?_⟩, hrest⟩ <;>
      unfold LoopFrame.headerIndex <;> omega
  | again frame state hk hsame =>
    obtain ⟨-, ⟨hnonneg, hlt, hfinish, hheader, hown⟩, -, hrest⟩ := cons_iff.1 h
    rw [hsame] at hheader hown
    refine cons_iff.2 ⟨?_, ⟨hnonneg, hlt, hfinish, hheader, hown⟩, Or.inl ?_, hrest⟩
    · unfold LoopFrame.bodyIndex
      omega
    · simp only [LoopFrame.bodyIndex]
      omega
  | exhaust frame hk => exact h.tail

/-- No more loops are in progress than there are headers before the bound. -/
theorem length_le_before (h : Ordered marks pc loops) (bound : Nat)
    (hb : ∀ f ∈ loops.head?, f.start < bound) :
    loops.length ≤ (marks.take bound).countP Block.opensLoop := by
  induction loops generalizing pc bound with
  | nil => simp
  | cons frame rest ih =>
    obtain ⟨-, hframe, -, hbelow, -⟩ := cons_iff.1 h
    have hnonneg := hframe.start_nonneg
    have hbefore : frame.start < bound := hb frame rfl
    have hrest : rest.length ≤ (marks.take frame.start.toNat).countP Block.opensLoop := by
      refine ih h.tail frame.start.toNat fun f hf => ?_
      have := hbelow f (List.mem_of_mem_head? hf)
      omega
    -- The header of the innermost frame is one more.
    have hown : (marks.take (frame.start.toNat + 1)).countP Block.opensLoop =
        (marks.take frame.start.toNat).countP Block.opensLoop + 1 := by
      rw [List.take_add_one, hframe.header]
      simp [List.countP_append, Block.opensLoop_opener]
    have hmono : (marks.take (frame.start.toNat + 1)).countP Block.opensLoop ≤
        (marks.take bound).countP Block.opensLoop :=
      (List.take_sublist_take_left (by omega)).countP_le
    simp only [List.length_cons]
    omega

theorem length_le (h : Ordered marks pc loops) : loops.length ≤ marks.countP Block.opensLoop := by
  have hle := h.length_le_before marks.length fun f hf => by
    have hfits := h.fits f (List.mem_of_mem_head? hf)
    exact hfits.start_lt.trans hfits.finish_lt
  simpa using hle

theorem starts_nodup (h : Ordered marks pc loops) : (loops.map LoopFrame.start).Nodup := by
  have hstarts := h.starts
  rw [List.pairwise_reverse] at hstarts
  exact List.pairwise_map.2 (hstarts.imp fun hlt => hlt.ne')

end LoopStack.Ordered

namespace Setup

variable {s : Setup} {run : Library.Runner} {i : Instruction} {state state' : Machine}

theorem ordered_goes (hg : Goes s i state state')
    (hm : s.program.marks[state.pc]? = some i.control)
    (h : LoopStack.Ordered s.program.marks state.pc state.context.loops) :
    LoopStack.Ordered s.program.marks state'.pc state'.context.loops := by
  cases hg with
  | leaves frame hloops hpc =>
    rw [hloops] at h
    rw [hpc]
    exact h.tail
  | turns hturn => exact h.turn hm hturn

/-- Whatever the instruction list, the loops in progress are in order at the top of every step. So
each loop header has one frame at most. -/
theorem reachable_ordered (settings : Settings) (run : Library.Runner)
    (instructions : List Instruction) (functionScope : Bool) (room : Nat)
    (cancelAfter : Option Nat) (state : Machine)
    (h : (Library.setupFor settings run instructions functionScope room cancelAfter).Reachable
      state) :
    LoopStack.Ordered (instructions.map Instruction.control) state.pc state.context.loops ∧
      (state.context.loops.map LoopFrame.start).Nodup ∧
      state.context.loops.length ≤
        (instructions.map Instruction.control).countP Block.opensLoop := by
  obtain ⟨c, n, hc, ht⟩ := h
  have hord : LoopStack.Ordered (instructions.map Instruction.control) state.pc
      state.context.loops := by
    refine ht.keeps (P := fun m =>
      LoopStack.Ordered (instructions.map Instruction.control) m.pc m.context.loops) ?_ ?_
    · intro i m m' hi hstep hm
      exact ordered_goes (step_goes rfl hstep).1 (control_of_getElem? hi) hm
    · rw [hc.loops]
      exact ⟨Nat.zero_le _, by simp, by simp, by simp⟩
  exact ⟨hord, hord.starts_nodup, hord.length_le⟩

/-- A loop that begins inside another one and ends behind it. -/
def crossedLoops : Setup :=
  Library.setupFor {} (fun _ key _ _ _ => .error (.call (.noLookup key)))
    [{ tag := "while" }, { tag := "forNumeric" }, { tag := "endWhile" }, { tag := "endFor" }] false

/-- Frames of blocks that cross each other are in order as well. -/
theorem crossedLoops_ordered :
    ∃ state, crossedLoops.Reachable state ∧
      state.context.loops.map (fun f => (f.start, f.finish)) = [(1, 3), (0, 2)] ∧
      LoopStack.Ordered crossedLoops.program.marks state.pc state.context.loops := by
  have hloops : ((crossedLoops.after? 2 { context := crossedLoops.start {} #[] }).map fun m =>
      m.context.loops.map fun f => (f.start, f.finish)) = some [(1, 3), (0, 2)] := by
    decide +kernel
  obtain ⟨state, hstate, hframes⟩ := Option.map_eq_some_iff.1 hloops
  have hreach : crossedLoops.Reachable state :=
    ⟨_, 2, begins_bindParameters _ [] [] {} #[], takes_of_after? hstate⟩
  exact ⟨state, hreach, hframes, (reachable_ordered _ _ _ _ _ _ state hreach).1⟩

end Setup

end NodeScript
