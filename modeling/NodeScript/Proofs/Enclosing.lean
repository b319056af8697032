import NodeScript.Proofs.Steps
import NodeScript.Proofs.Validation

/-!
Runs of nested instruction lists. At the top of every step the loops in progress are the loop blocks
around the program counter, so that control is never stuck: every block has its end, and every end
of a loop finds its own loop on top.
-/

namespace NodeScript

variable {marks : List Mark} {pc pc' : Nat} {m : Mark} {loops loops' outer rest : LoopStack}
  {frame : LoopFrame} {kind : LoopKind} {start finish : Nat}

/-! ### Loop blocks around an index -/

namespace Block

/-- A block that begins within another one ends within it. -/
theorem Spans.finish_lt_of_start {inner other : BlockKind} {start' finish' : Nat}
    (h : Spans marks other start finish) (h' : Spans marks inner start' finish')
    (hlt : start < start') (hle : start' ≤ finish) : finish' < finish := by
  have hne : start' ≠ finish := by
    rintro rfl
    simpa using h'.getElem_start.symm.trans h.getElem_finish
  obtain ⟨before, body, after, rfl, hb, rfl, rfl⟩ := h
  have hsplit : before ++ some other.opener :: (body ++ some other.terminator :: after) =
      (before ++ [some other.opener]) ++ (body ++ some other.terminator :: after) := by
    simp
  have hclosed := hb.closed hsplit h'
  simp only [List.length_append, List.length_singleton] at hclosed
  have := hclosed.1 ⟨hlt, by omega⟩
  omega

/-- The same loop blocks are around both indices. -/
def SameLoops (marks : List Mark) (pc pc' : Nat) : Prop :=
  ∀ (kind : LoopKind) (start finish : Nat), Spans marks kind.block start finish →
    (start < pc ∧ pc ≤ finish ↔ start < pc' ∧ pc' ≤ finish)

theorem SameLoops.trans {index : Nat} (h : SameLoops marks pc index)
    (h' : SameLoops marks index pc') : SameLoops marks pc pc' :=
  fun kind start finish hs => (h kind start finish hs).trans (h' kind start finish hs)

/-- A mark that neither opens nor closes a loop. -/
def NotLoop (m : Mark) : Prop :=
  ∀ kind : LoopKind, m ≠ some kind.block.opener ∧ m ≠ some kind.block.terminator

theorem notLoop_of (hm : m = none ∨ m = some .branch ∨ m = some .otherwise ∨ m = some .endBranch ∨
    m = some .breakLoop ∨ m = some .giveBack ∨ m = some .call) : NotLoop m := by
  rintro (_ | _ | _) <;> obtain rfl | rfl | rfl | rfl | rfl | rfl | rfl := hm <;>
    simp [LoopKind.block, BlockKind.opener, BlockKind.terminator]

/-- Past a mark that belongs to no loop. -/
theorem SameLoops.mark (hm : marks[pc]? = some m) (hn : NotLoop m) :
    SameLoops marks pc (pc + 1) := by
  intro kind start finish hs
  have hstart : start ≠ pc := by
    rintro rfl
    exact (hn kind).1 (Option.some.inj (hm.symm.trans hs.getElem_start))
  have hfinish : finish ≠ pc := by
    rintro rfl
    exact (hn kind).2 (Option.some.inj (hm.symm.trans hs.getElem_finish))
  omega

/-- Past all that stands inside of some block. -/
theorem SameLoops.segment {other : BlockKind} {before seg after : List Mark}
    (h : Inside other seg) (hm : marks = before ++ (seg ++ after)) :
    SameLoops marks before.length (before.length + seg.length) := by
  intro kind start finish hs
  have hclosed := h.closed hm hs
  have hlt := hs.start_lt
  omega

/-- Past a whole block. -/
theorem SameLoops.block {other : BlockKind} (h : Spans marks other start finish) :
    SameLoops marks start (finish + 1) := by
  obtain ⟨before, body, after, hm, hb, rfl, rfl⟩ := h
  have hwhole : Inside other (some other.opener :: (body ++ [some other.terminator])) :=
    .whole (.block hb .empty)
  have hsplit : marks =
      before ++ ((some other.opener :: (body ++ [some other.terminator])) ++ after) := by
    simpa using hm
  have hseg := SameLoops.segment hwhole hsplit
  simp only [List.length_cons, List.length_append, List.length_nil] at hseg
  rwa [show before.length + 1 + body.length + 1 = before.length + (body.length + (0 + 1) + 1) by
    omega]

/-- Past a part of a branch with the marks on both sides of it. -/
theorem SameLoops.part {other : BlockKind} {before seg after : List Mark} {m' : Mark}
    (hm : marks = before ++ m :: (seg ++ m' :: after)) (h : Inside other seg) (hn : NotLoop m)
    (hn' : NotLoop m') : SameLoops marks before.length (before.length + 1 + seg.length + 1) := by
  have hsplit : marks = (before ++ [m]) ++ (seg ++ m' :: after) := by simpa using hm
  have hseg := SameLoops.segment h hsplit
  simp only [List.length_append, List.length_singleton] at hseg
  have hfirst : marks[before.length]? = some m := by simp [hm]
  have hlast : marks[before.length + 1 + seg.length]? = some m' := by
    rw [hsplit, List.getElem?_append_right (by simp), List.getElem?_append_right (by simp)]
    simp
  exact (mark hfirst hn).trans (hseg.trans (mark hlast hn'))

/-- The first part of a branch ends at an `else` or at the end of the branch. -/
theorem Inside.first_part {body after : List Mark} (h : Inside .branch body) :
    ∃ first stop tail, Nested first ∧ (stop = Control.otherwise ∨ stop = .endBranch) ∧
      body ++ some .endBranch :: after = first ++ some stop :: tail := by
  cases h with
  | whole hn => exact ⟨body, .endBranch, after, hn, Or.inr rfl, rfl⟩
  | @divided first rest hn _ =>
    exact ⟨first, .otherwise, rest ++ some .endBranch :: after, hn, Or.inl rfl, by simp⟩

/-- A branch that is not taken. -/
theorem elseOrEndAfter?_nested (h : Nested marks) (hm : marks[pc]? = some (some .branch)) :
    ∃ target, elseOrEndAfter? marks pc = some target ∧ SameLoops marks pc (target + 1) := by
  obtain ⟨finish, before, body, after, hmarks, hb, rfl, -⟩ :=
    h.spans_of_opener (show marks[pc]? = some (some BlockKind.branch.opener) from hm)
  obtain ⟨first, stop, tail, hn, hstop, hbody⟩ := @Inside.first_part _ after hb
  replace hmarks : marks = before ++ some .branch :: (first ++ some stop :: tail) :=
    hmarks.trans (by rw [← hbody]; rfl)
  refine ⟨before.length + 1 + first.length, ?_, ?_⟩
  · rw [hmarks]
    exact elseOrEndAfter?_first before tail hn hstop
  · refine SameLoops.part hmarks (Inside.whole hn : Inside .branch first) (notLoop_of (by simp))
      (notLoop_of ?_)
    obtain rfl | rfl := hstop <;> simp

/-- The rest of a branch, behind an `else`. -/
theorem endAfter?_otherwise (h : Nested marks) (hm : marks[pc]? = some (some .otherwise)) :
    ∃ target, endAfter? marks .branch pc = some target ∧ SameLoops marks pc (target + 1) := by
  obtain ⟨before, body, after, rfl, hb, rfl⟩ := h.split_otherwise hm
  exact ⟨_, endAfter?_inside before after _ hb,
    SameLoops.part rfl hb (notLoop_of (by simp)) (notLoop_of (by simp))⟩

end Block

/-! ### Frames and blocks -/

/-- A frame stands for a loop block, from its header to its own end. -/
structure LoopFrame.Is (f : LoopFrame) (kind : LoopKind) (start finish : Nat) : Prop where
  kind_eq : f.state.kind = kind
  start_eq : f.start = start
  finish_eq : f.finish = finish

/-- The frames are those of the loop blocks around an index: the blocks whose header lies before it
and whose end does not. -/
structure LoopStack.Around (marks : List Mark) (pc : Nat) (loops : LoopStack) : Prop where
  /-- From the outermost loop to the innermost. -/
  ordered : loops.reverse.Pairwise fun outer inner => outer.start < inner.start
  sound : ∀ f ∈ loops, ∃ kind start finish, f.Is kind start finish ∧
    Block.Spans marks kind.block start finish ∧ start < pc ∧ pc ≤ finish
  complete : ∀ (kind : LoopKind) (start finish : Nat), Block.Spans marks kind.block start finish →
    start < pc → pc ≤ finish → ∃ f ∈ loops, f.Is kind start finish

/-- The loops in progress while control is at `pc`: those around it, and perhaps the loop whose
condition is tested there. -/
inductive LoopStack.Tracks (marks : List Mark) (pc : Nat) : LoopStack → Prop
  | inside {loops : LoopStack} (h : Around marks pc loops) : Tracks marks pc loops
  | testing {loops : LoopStack} {frame : LoopFrame} {finish : Nat} (h : Around marks pc loops)
      (hf : frame.Is .whileLoop pc finish) (hs : Block.Spans marks .whileLoop pc finish) :
      Tracks marks pc (frame :: loops)

namespace LoopStack.Around

theorem congr (h : Around marks pc loops) (hsame : Block.SameLoops marks pc pc') :
    Around marks pc' loops where
  ordered := h.ordered
  sound f hf := by
    obtain ⟨kind, start, finish, his, hs, hlt, hle⟩ := h.sound f hf
    obtain ⟨hlt', hle'⟩ := (hsame kind start finish hs).1 ⟨hlt, hle⟩
    exact ⟨kind, start, finish, his, hs, hlt', hle'⟩
  complete kind start finish hs hlt hle := by
    obtain ⟨hlt', hle'⟩ := (hsame kind start finish hs).2 ⟨hlt, hle⟩
    exact h.complete kind start finish hs hlt' hle'

theorem start_lt (h : Around marks pc loops) {f : LoopFrame} (hf : f ∈ loops) : f.start < pc := by
  obtain ⟨kind, start, finish, his, -, hlt, -⟩ := h.sound f hf
  rw [his.start_eq]
  omega

theorem below (h : Around marks pc (frame :: rest)) {f : LoopFrame} (hf : f ∈ rest) :
    f.start < frame.start := by
  have hordered := h.ordered
  simp only [List.reverse_cons, List.pairwise_append, List.mem_reverse, List.mem_singleton,
    forall_eq] at hordered
  exact hordered.2.2 f hf

/-- Behind the header of a loop that is entered, its own block is around control as well. -/
theorem enter (h : Around marks pc outer) (hf : frame.Is kind pc finish)
    (hs : Block.Spans marks kind.block pc finish) : Around marks (pc + 1) (frame :: outer) where
  ordered := by
    simp only [List.reverse_cons, List.pairwise_append, List.mem_reverse, List.mem_singleton,
      forall_eq]
    refine ⟨h.ordered, List.pairwise_singleton _ _, fun f hf' => ?_⟩
    rw [hf.start_eq]
    exact h.start_lt hf'
  sound f hf' := by
    obtain rfl | hf' := List.mem_cons.1 hf'
    · exact ⟨kind, pc, finish, hf, hs, Nat.lt_succ_self pc, hs.start_lt⟩
    · obtain ⟨kind', start', finish', his, hs', hlt, hle⟩ := h.sound f hf'
      have := hs'.finish_lt_of_start hs hlt hle
      have := hs.start_lt
      exact ⟨kind', start', finish', his, hs', by omega, by omega⟩
  complete kind' start' finish' hs' hlt hle := by
    obtain rfl | hlt' : start' = pc ∨ start' < pc := by omega
    · obtain rfl : kind' = kind := by
        have hblock := hs'.kind_unique hs
        cases kind <;> cases kind' <;> simp_all [LoopKind.block]
      obtain rfl := hs'.finish_unique hs
      exact ⟨frame, by simp, hf⟩
    · obtain ⟨f, hmem, his⟩ := h.complete kind' start' finish' hs' hlt' (by omega)
      exact ⟨f, by simp [hmem], his⟩

/-- At the header of the innermost loop only the outer ones are around control. -/
theorem tail (h : Around marks pc (frame :: rest)) (hf : frame.Is kind start finish)
    (hs : Block.Spans marks kind.block start finish) (hlt : start < pc) (hle : pc ≤ finish) :
    Around marks start rest where
  ordered := by
    have hordered := h.ordered
    simp only [List.reverse_cons, List.pairwise_append] at hordered
    exact hordered.1
  sound f hmem := by
    obtain ⟨kind', start', finish', his, hs', hlt', hle'⟩ := h.sound f (by simp [hmem])
    have hbelow := h.below hmem
    rw [his.start_eq, hf.start_eq] at hbelow
    exact ⟨kind', start', finish', his, hs', by omega, by omega⟩
  complete kind' start' finish' hs' hlt' hle' := by
    have := hs'.finish_lt_of_start hs hlt' hle'
    obtain ⟨f, hmem, his⟩ := h.complete kind' start' finish' hs' (by omega) (by omega)
    obtain rfl | hmem := List.mem_cons.1 hmem
    · have := his.start_eq.symm.trans hf.start_eq
      omega
    · exact ⟨f, hmem, his⟩

/-- Behind the innermost loop only the outer ones are around control. -/
theorem exit (h : Around marks pc (frame :: rest)) : Around marks frame.exitIndex rest := by
  obtain ⟨kind, start, finish, his, hs, hlt, hle⟩ := h.sound frame (by simp)
  have hexit : frame.exitIndex = finish + 1 := by
    unfold LoopFrame.exitIndex
    rw [his.finish_eq]
    rfl
  rw [hexit]
  exact (h.tail his hs hlt hle).congr (.block hs)

/-- The end of a loop finds its own loop on top. -/
theorem top_of_terminator (h : Around marks pc loops) (hn : Block.Nested marks)
    (hm : marks[pc]? = some (some kind.block.terminator)) :
    ∃ frame rest start, loops = frame :: rest ∧ frame.Is kind start pc ∧
      Block.Spans marks kind.block start pc := by
  obtain ⟨start, hs⟩ := hn.spans_of_terminator hm
  obtain ⟨f, hmem, his⟩ := h.complete kind start pc hs hs.start_lt le_rfl
  cases loops with
  | nil => cases hmem
  | cons frame rest =>
    obtain rfl | hrest := List.mem_cons.1 hmem
    · exact ⟨f, rest, start, rfl, his, hs⟩
    · -- A loop on top of it would begin within it and end behind its end.
      obtain ⟨kind', start', finish', his', hs', hlt', hle'⟩ := h.sound frame (by simp)
      have hbelow := h.below hrest
      rw [his.start_eq, his'.start_eq] at hbelow
      have := hs.finish_lt_of_start hs' (by omega) (by omega)
      omega

end LoopStack.Around

namespace LoopStack.Tracks

/-- Unless control is at the header of a loop, the loops in progress are those around it. -/
theorem around (h : Tracks marks pc loops) (hm : marks[pc]? ≠ some (some .whileLoop)) :
    Around marks pc loops := by
  cases h with
  | inside h => exact h
  | testing h hf hs => exact absurd hs.getElem_start hm

theorem around_of_terminator (h : Tracks marks pc loops)
    (hm : marks[pc]? = some (some kind.block.terminator)) : Around marks pc loops := by
  refine h.around ?_
  rw [hm]
  cases kind <;> simp [LoopKind.block, BlockKind.terminator]

theorem pushIfNew (h : Tracks marks pc loops) {state : LoopState}
    (hs : Block.Spans marks state.kind.block pc finish) :
    Around marks (pc + 1) (loops.pushIfNew ⟨pc, finish, state⟩).2 := by
  have hnew : LoopFrame.Is ⟨pc, finish, state⟩ state.kind pc finish := ⟨rfl, rfl, rfl⟩
  cases h with
  | inside h =>
    cases loops with
    | nil => exact h.enter hnew hs
    | cons frame rest =>
      have hne : frame.start ≠ pc := (h.start_lt (by simp)).ne
      simpa [LoopStack.pushIfNew, hne] using h.enter hnew hs
  | testing h hf hs' =>
    simpa [LoopStack.pushIfNew, hf.start_eq] using h.enter hf hs'

theorem popIfStart (h : Tracks marks pc loops) : Around marks pc (loops.popIfStart pc).2 := by
  cases h with
  | inside h =>
    cases loops with
    | nil => exact h
    | cons frame rest =>
      have hne : frame.start ≠ pc := (h.start_lt (by simp)).ne
      simpa [LoopStack.popIfStart, hne] using h
  | testing h hf hs => simpa [LoopStack.popIfStart, hf.start_eq] using h

/-- Every way in which control goes on keeps track of the loops. -/
theorem turn (hn : Block.Nested marks) (h : Tracks marks pc loops) (hm : marks[pc]? = some m)
    (ht : Turn marks pc m loops pc' loops') : Tracks marks pc' loops' := by
  cases ht with
  | onward hplain =>
    have hmark : Block.NotLoop m := Block.notLoop_of (by tauto)
    have haround := h.around fun he => (hmark .whileLoop).1 (Option.some.inj (hm.symm.trans he))
    exact .inside (haround.congr (.mark hm hmark))
  | @skipBranch _ target he =>
    obtain ⟨target', he', hsame⟩ := Block.elseOrEndAfter?_nested hn hm
    obtain rfl : target' = target := Option.some.inj (he'.symm.trans he)
    exact .inside ((h.around (by simp [hm])).congr hsame)
  | @skipElse _ target he =>
    obtain ⟨target', he', hsame⟩ := Block.endAfter?_otherwise hn hm
    obtain rfl : target' = target := Option.some.inj (he'.symm.trans he)
    exact .inside ((h.around (by simp [hm])).congr hsame)
  | @enter _ finish state he =>
    obtain ⟨finish', hs⟩ := hn.spans_of_opener hm
    obtain rfl : finish' = finish := Option.some.inj (hs.endAfter.symm.trans he)
    exact .inside (h.pushIfNew hs)
  | @pass _ finish kind he =>
    obtain ⟨finish', hs⟩ := hn.spans_of_opener hm
    obtain rfl : finish' = finish := Option.some.inj (hs.endAfter.symm.trans he)
    exact .inside (h.popIfStart.congr (.block hs))
  | @test rest frame hk =>
    have hend : marks[pc]? = some (some LoopKind.whileLoop.block.terminator) := hm
    have haround := h.around_of_terminator hend
    obtain ⟨_, _, start, hl, hf, hs⟩ := haround.top_of_terminator hn hend
    cases hl
    have hheader : frame.headerIndex = start := by
      rw [LoopFrame.headerIndex, hf.start_eq]
      rfl
    rw [hheader]
    exact .testing (haround.tail hf hs hs.start_lt le_rfl) hf hs
  | @again rest frame state hk hsame =>
    have haround := h.around_of_terminator hm
    obtain ⟨_, _, start, hl, hf, hs⟩ := haround.top_of_terminator hn hm
    cases hl
    have hbody : frame.bodyIndex = start + 1 := by
      rw [LoopFrame.bodyIndex, hf.start_eq]
      rfl
    rw [hbody]
    exact .inside ((haround.tail hf hs hs.start_lt le_rfl).enter
      ⟨rfl, hf.start_eq, hf.finish_eq⟩ hs)
  | @exhaust rest frame hk =>
    exact .inside (h.around_of_terminator hm).exit

/-- A break leaves the innermost loop. -/
theorem exit (h : Tracks marks pc (frame :: rest)) : Tracks marks frame.exitIndex rest := by
  cases h with
  | inside h => exact .inside h.exit
  | @testing _ _ finish h hf hs =>
    have hexit : frame.exitIndex = finish + 1 := by
      rw [LoopFrame.exitIndex, hf.finish_eq]
      rfl
    rw [hexit]
    exact .inside (h.congr (.block hs))

/-- Control is never stuck. -/
theorem not_stuck (hn : Block.Nested marks) (h : Tracks marks pc loops) {control : Control}
    (hm : marks[pc]? = some (some control)) : ¬ Stuck marks pc control loops := by
  intro hstuck
  cases hstuck with
  | branch he =>
    obtain ⟨target, he', -⟩ := Block.elseOrEndAfter?_nested hn hm
    simp [he'] at he
  | otherwise he =>
    obtain ⟨target, he', -⟩ := Block.endAfter?_otherwise hn hm
    simp [he'] at he
  | header kind he =>
    obtain ⟨finish, hs⟩ := hn.spans_of_opener hm
    simp [hs.endAfter] at he
  | terminator kind hno =>
    obtain ⟨frame, rest, start, hl, hf, -⟩ :=
      (h.around_of_terminator hm).top_of_terminator hn hm
    exact hno frame rest hl hf.kind_eq

end LoopStack.Tracks

/-! ### Runs -/

/-- What holds at the top of every step of a nested list: the loops are kept track of, and a pending
break was requested by the instruction before. -/
structure Machine.Sound (marks : List Mark) (state : Machine) : Prop where
  tracks : LoopStack.Tracks marks state.pc state.context.loops
  breaks : state.context.breakRequested = true →
    ∃ index, state.pc = index + 1 ∧ marks[index]? = some (some .breakLoop)

/-- A structural error about a break that no loop is around. -/
def Diagnostic.IsBreakOutside (marks : List Mark) (d : Diagnostic) : Prop :=
  ∃ index, marks[index]? = some (some .breakLoop) ∧
    (∀ (kind : LoopKind) (start finish : Nat), Block.Spans marks kind.block start finish →
      ¬ (start < index ∧ index < finish)) ∧
    (d.message = s!"Execution halted: Break encountered outside of a loop (Index {index + 1})." ∨
      d.message = "Execution halted: Break encountered outside of a loop.")

theorem Machine.Sound.breakOutside {state : Machine} {d : Diagnostic} (h : state.Sound marks)
    (hb : state.context.breakRequested = true) (hl : state.context.loops = [])
    (hd : d.message =
        s!"Execution halted: Break encountered outside of a loop (Index {state.pc})." ∨
      d.message = "Execution halted: Break encountered outside of a loop.") :
    d.IsBreakOutside marks := by
  obtain ⟨index, hpc, hm⟩ := h.breaks hb
  refine ⟨index, hm, fun kind start finish hs hin => ?_, by rwa [hpc] at hd⟩
  have htracks := h.tracks
  rw [hl] at htracks
  cases htracks with
  | inside haround =>
    obtain ⟨f, hf, -⟩ := haround.complete kind start finish hs (by omega) (by omega)
    cases hf

namespace Setup

variable {s : Setup} {run : Library.Runner} {i : Instruction} {state state' : Machine}
  {c : Context} {d : Diagnostic}

theorem turn_of_breakLoop (h : Turn marks pc (some .breakLoop) loops pc' loops') :
    pc' = pc + 1 := by
  generalize hm : (some Control.breakLoop : Mark) = m at h
  cases h with
  | onward => rfl
  | enter state => cases state <;> cases hm
  | pass kind => cases kind <;> cases hm
  | again frame state => cases state <;> cases hm
  | exhaust frame => cases hk : frame.state <;> simp [hk, LoopState.kind, LoopKind.block,
      BlockKind.terminator] at hm
  | skipBranch | skipElse | test => cases hm

theorem sound_goes (hn : Block.Nested s.program.marks) (hg : Goes s i state state')
    (hm : s.program.marks[state.pc]? = some i.control) (h : state.Sound s.program.marks) :
    state'.Sound s.program.marks := by
  cases hg with
  | leaves frame hloops hpc hbreak =>
    have htracks := h.tracks
    rw [hloops] at htracks
    refine ⟨?_, by simp [hbreak]⟩
    rw [hpc]
    exact htracks.exit
  | turns hturn hbreak =>
    refine ⟨h.tracks.turn hn hm hturn, fun hb => ⟨state.pc, ?_, ?_⟩⟩
    · rw [hbreak hb] at hturn
      exact turn_of_breakLoop hturn
    · rw [hm, hbreak hb]

section Nested

variable {settings : Settings} {instructions : List Instruction} {functionScope : Bool}
  {room : Nat} {cancelAfter : Option Nat} {n : Nat}
  (hn : Block.Nested (instructions.map Instruction.control))
  (hs : s = Library.setupFor settings run instructions functionScope room cancelAfter)

include hn hs

/-- While the run goes on it is sound and has reported nothing but warnings. -/
theorem takes_sound (hc : s.Begins c) (ht : Takes s n { context := c } state) :
    state.Sound (instructions.map Instruction.control) ∧
      ∀ d ∈ state.context.diagnostics, d.kind = .warning := by
  subst hs
  refine ht.keeps (P := fun state => state.Sound (instructions.map Instruction.control) ∧
    ∀ d ∈ state.context.diagnostics, d.kind = .warning) ?_ ⟨?_, fun d hd => hc.diagnostics hd⟩
  · rintro i m m' hi hstep ⟨hm, hwarn⟩
    obtain ⟨hg, honly⟩ := step_goes rfl hstep
    exact ⟨sound_goes hn hg (control_of_getElem? hi) hm,
      fun d hd => (honly d hd).elim (hwarn d) id⟩
  · refine ⟨?_, by simp [hc.breakRequested]⟩
    rw [hc.loops]
    exact .inside ⟨by simp, by simp, fun _ _ _ _ hlt => absurd hlt (Nat.not_lt_zero _)⟩

/-- A step that ends the run reports no structural error but a break outside of a loop. -/
theorem step_breakOutside (hm : state.Sound (instructions.map Instruction.control))
    (hwarn : ∀ d ∈ state.context.diagnostics, d.kind = .warning) {ending : Ending}
    (hi : s.program.instructions[state.pc]? = some i) (h : s.step i state = (state', some ending))
    (hd : d ∈ state'.context.diagnostics) (hk : d.kind = .structural) :
    d.IsBreakOutside (instructions.map Instruction.control) := by
  subst hs
  obtain hd | hd := step_structural rfl h hd hk
  · simp [hwarn d hd] at hk
  · cases hd with
    | breakOutside hbreak hloops hmessage => exact hm.breakOutside hbreak hloops (Or.inl hmessage)
    | stuck hcontrol hstuck =>
      have hmark := control_of_getElem? hi
      rw [hcontrol] at hmark
      exact absurd hstuck (hm.tracks.not_stuck hn hmark)

/-- No run reports a structural error but a break outside of a loop. -/
theorem runFrom_breakOutside (hc : s.Begins c) (hd : d ∈ (s.runFrom c).context.diagnostics)
    (hk : d.kind = .structural) : d.IsBreakOutside (instructions.map Instruction.control) := by
  obtain ⟨n, state, -, ht, hend⟩ := @steps_cases s s.settings.maxIterations { context := c }
  obtain ⟨hm, hwarn⟩ := takes_sound hn hs hc ht
  simp only [runFrom] at hd
  obtain ⟨-, hend⟩ | ⟨-, -, hend⟩ | ⟨i, state', ending, hi, hstep, hend⟩ := hend
  -- A run that ends by itself or at the limit ends in a sound state.
  iterate 2
    rw [hend] at hd
    obtain hd | ⟨-, hbreak, hloops, hmessage⟩ := conclude_structural hd hk
    · simp [hwarn d hd] at hk
    · exact hm.breakOutside hbreak hloops (Or.inr hmessage)
  rw [hend] at hd
  obtain hd | ⟨hne, hbreak, hloops, hmessage⟩ := conclude_structural hd hk
  · exact step_breakOutside hn hs hm hwarn hi hstep hd hk
  · obtain rfl : ending = .returned := (step_ending hstep).resolve_right hne
    obtain rfl := step_returned hstep
    exact hm.breakOutside hbreak hloops (Or.inr hmessage)

end Nested

/-- Control flow of a graph whose blocks pass the check. The loops in progress are always those
around control, and no block is ever found to be wrong: the only structural error is a break that no
loop is around. -/
theorem checked_control_flow {g : Graph} (hg : g.blockProblems = []) (settings : Settings)
    (run : Library.Runner) (functionScope : Bool) (room : Nat) (cancelAfter : Option Nat) :
    (∀ state, (Library.setupFor settings run g.instructions functionScope room
        cancelAfter).Reachable state →
      LoopStack.Tracks g.marks state.pc state.context.loops) ∧
    (∀ c, (Library.setupFor settings run g.instructions functionScope room cancelAfter).Begins c →
      ∀ d ∈ ((Library.setupFor settings run g.instructions functionScope room
        cancelAfter).runFrom c).context.diagnostics,
      d.kind = .structural → d.IsBreakOutside g.marks) := by
  have hn := Graph.blockProblems_eq_nil_iff_nested.1 hg
  refine ⟨?_, fun c hc d hd hk => runFrom_breakOutside hn rfl hc hd hk⟩
  rintro state ⟨c, n, hc, ht⟩
  exact (takes_sound hn rfl hc ht).1.tracks

/-- A break inside of two loops, and one behind them. -/
def strayBreak : Graph where
  instructions :=
    [{ tag := "forNumeric" }, { tag := "while" }, { tag := "break" }, { tag := "endWhile" },
     { tag := "endFor" }, { tag := "break" }]

def strayBreakSetup : Setup :=
  Library.setupFor {} (fun _ key _ _ _ => .error (.call (.noLookup key)))
    strayBreak.instructions false

/-- Both loops are in progress at the first break; the second one is the error. -/
theorem strayBreak_control_flow :
    strayBreak.blockProblems = [] ∧
    (∃ state, strayBreakSetup.Reachable state ∧ state.pc = 2 ∧ state.context.loops.length = 2 ∧
      LoopStack.Tracks strayBreak.marks state.pc state.context.loops) ∧
    ∃ d ∈ (strayBreakSetup.runFrom (strayBreakSetup.start {} #[])).context.diagnostics,
      d.kind = .structural ∧ d.IsBreakOutside strayBreak.marks := by
  have hg : strayBreak.blockProblems = [] := by decide +kernel
  have hbegins : strayBreakSetup.Begins (strayBreakSetup.start {} #[]) :=
    begins_bindParameters strayBreakSetup [] [] {} #[]
  obtain ⟨htracks, hreports⟩ : (∀ state, strayBreakSetup.Reachable state →
      LoopStack.Tracks strayBreak.marks state.pc state.context.loops) ∧
      ∀ c, strayBreakSetup.Begins c → ∀ d ∈ (strayBreakSetup.runFrom c).context.diagnostics,
        d.kind = .structural → d.IsBreakOutside strayBreak.marks :=
    checked_control_flow hg {} _ false nestingLimit none
  refine ⟨hg, ?_, ?_⟩
  · have hafter : ((strayBreakSetup.after? 2 { context := strayBreakSetup.start {} #[] }).map
        fun m => (m.pc, m.context.loops.length)) = some (2, 2) := by
      decide +kernel
    obtain ⟨state, hstate, heq⟩ := Option.map_eq_some_iff.1 hafter
    obtain ⟨hpc, hlength⟩ := Prod.mk.inj heq
    have hreach : strayBreakSetup.Reachable state := ⟨_, 2, hbegins, takes_of_after? hstate⟩
    exact ⟨state, hreach, hpc, hlength, htracks state hreach⟩
  · have hfound : ((strayBreakSetup.runFrom
        (strayBreakSetup.start {} #[])).context.diagnostics.find?
        fun d => d.kind = .structural).isSome = true := by
      decide +kernel
    obtain ⟨d, hd⟩ := Option.isSome_iff_exists.1 hfound
    have hmem := Array.mem_of_find?_eq_some hd
    have hk : d.kind = .structural := by simpa using Array.find?_some hd
    exact ⟨d, hmem, hk, hreports _ hbegins d hmem hk⟩

end Setup

end NodeScript
