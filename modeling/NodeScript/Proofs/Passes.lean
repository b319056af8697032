import NodeScript.Proofs.Enclosing
import NodeScript.Proofs.Isolation
import NodeScript.Proofs.LoopOrder

/-!
Passes through the body of a loop. Whatever stands around a loop, a pass through its nested body
that completes leaves the stack of loops as it found it. So what a loop does is told by what its
header and its end decide: to begin a pass, or to leave the loop.
-/

namespace NodeScript

variable {before body after : List Mark} {mark : Mark} {pc' index : Nat}
  {inner base loops' rest : LoopStack} {frame : LoopFrame}

/-! ### Inside of a body -/

namespace Block

variable {kind : BlockKind} {depth offset target : Nat} {ms seg : List Mark}

/-- What a scan finds does not depend on the marks behind it. -/
theorem closing?_append (h : closing? kind depth ms = some offset) (tail : List Mark) :
    closing? kind depth (ms ++ tail) = some offset := by
  induction ms generalizing depth offset with
  | nil => cases h
  | cons m ms ih => cases depth <;> grind [closing?, Option.map_eq_some_iff]

theorem elseOrClosing?_append (h : elseOrClosing? depth ms = some offset) (tail : List Mark) :
    elseOrClosing? depth (ms ++ tail) = some offset := by
  induction ms generalizing depth offset with
  | nil => cases h
  | cons m ms ih => cases depth <;> grind [elseOrClosing?, Option.map_eq_some_iff]

theorem drop_within (h : index < seg.length) :
    (before ++ (seg ++ after)).drop (before.length + index + 1) =
      seg.drop (index + 1) ++ after := by
  rw [Nat.add_assoc, List.drop_length_add_append, List.drop_append_of_le_length (by omega)]

theorem getElem?_within (h : index < seg.length) :
    (before ++ (seg ++ after))[before.length + index]? = seg[index]? := by
  rw [List.getElem?_append_right (by omega), Nat.add_sub_cancel_left, List.getElem?_append_left h]

theorem endAfter?_within (h : endAfter? seg kind index = some target) :
    endAfter? (before ++ (seg ++ after)) kind (before.length + index) =
      some (before.length + target) := by
  obtain ⟨hlt, hle⟩ := endAfter?_bounds h
  obtain ⟨offset, ho, rfl⟩ := Option.map_eq_some_iff.1 h
  rw [endAfter?, drop_within (by omega), closing?_append ho, Option.map_some, Option.some.injEq]
  omega

theorem elseOrEndAfter?_within (h : elseOrEndAfter? seg index = some target) :
    elseOrEndAfter? (before ++ (seg ++ after)) (before.length + index) =
      some (before.length + target) := by
  obtain ⟨hlt, hle⟩ := elseOrEndAfter?_bounds h
  unfold elseOrEndAfter? at h ⊢
  rw [getElem?_within (by omega), drop_within (by omega)]
  split at h
  · obtain ⟨offset, ho, rfl⟩ := Option.map_eq_some_iff.1 h
    simp only [elseOrClosing?_append ho, Option.map_some, Option.some.injEq]
    omega
  · cases h

theorem Inside.nested_of_loop {kind : LoopKind} (h : Inside kind.block ms) : Nested ms := by
  generalize hk : kind.block = block at h
  cases h with
  | whole h => exact h
  | divided => cases kind <;> cases hk

end Block

/-- The same frame in a list that has so many marks more in front. -/
def LoopFrame.raise (offset : Nat) (f : LoopFrame) : LoopFrame :=
  { f with start := f.start + offset, finish := f.finish + offset }

namespace LoopStack

variable {offset : Nat} (hbase : ∀ f ∈ base.head?, f.start < offset)

include hbase

theorem pushIfNew_raise (index finish : Nat) (state : LoopState) :
    (pushIfNew (inner.map (.raise offset) ++ base)
        ⟨(offset + index : Nat), (offset + finish : Nat), state⟩).2 =
      (inner.pushIfNew ⟨index, finish, state⟩).2.map (.raise offset) ++ base := by
  have hnew : (⟨(offset + index : Nat), (offset + finish : Nat), state⟩ : LoopFrame) =
      LoopFrame.raise offset ⟨index, finish, state⟩ := by
    simp [LoopFrame.raise, add_comm]
  cases inner with
  | nil =>
    have hlt := Script.start_lt_mono hbase (Nat.le_add_right offset index)
    simpa [LoopStack.pushIfNew, ← hnew] using
      @Script.pushIfNew_new base (offset + index) (offset + finish) state hlt
  | cons f rest =>
    have hsame : f.start + offset = offset + index ↔ f.start = index := by omega
    by_cases hf : f.start = index <;>
      simp [LoopStack.pushIfNew, LoopFrame.raise, hsame, hf, add_comm]

theorem popIfStart_raise (index : Nat) :
    (popIfStart (inner.map (.raise offset) ++ base) (offset + index : Nat)).2 =
      (inner.popIfStart index).2.map (.raise offset) ++ base := by
  cases inner with
  | nil => exact Script.popIfStart_new (Script.start_lt_mono hbase (Nat.le_add_right offset index))
  | cons f rest =>
    have hsame : f.start + offset = offset + index ↔ f.start = index := by omega
    by_cases hf : f.start = index <;>
      simp [LoopStack.popIfStart, LoopFrame.raise, hsame, hf, add_comm]

end LoopStack

/-- In the body of a loop control goes on as it does in the body alone. -/
theorem Turn.within (hn : Block.Nested body) (hmark : body[index]? = some mark)
    (htracks : inner.Tracks body index) (hbase : ∀ f ∈ base.head?, f.start < before.length)
    (ht : Turn (before ++ (body ++ after)) (before.length + index) mark
      (inner.map (.raise before.length) ++ base) pc' loops') :
    ∃ index' inner', pc' = before.length + index' ∧
      loops' = inner'.map (.raise before.length) ++ base ∧
      Turn body index mark inner index' inner' := by
  generalize hl : inner.map (.raise before.length) ++ base = loops at ht
  cases ht with
  | onward hplain => exact ⟨index + 1, inner, rfl, hl.symm, .onward hplain⟩
  | skipBranch he =>
    obtain ⟨target, ho, -⟩ := Block.elseOrEndAfter?_nested hn hmark
    cases he.symm.trans (Block.elseOrEndAfter?_within ho)
    exact ⟨target + 1, inner, rfl, hl.symm, .skipBranch ho⟩
  | skipElse he =>
    obtain ⟨target, ho, -⟩ := Block.endAfter?_otherwise hn hmark
    cases he.symm.trans (Block.endAfter?_within ho)
    exact ⟨target + 1, inner, rfl, hl.symm, .skipElse ho⟩
  | enter state he =>
    obtain ⟨finish, hs⟩ := hn.spans_of_opener hmark
    cases he.symm.trans (Block.endAfter?_within hs.endAfter)
    refine ⟨index + 1, _, rfl, ?_, .enter state hs.endAfter⟩
    rw [← hl, LoopStack.pushIfNew_raise hbase]
  | pass kind he =>
    obtain ⟨finish, hs⟩ := hn.spans_of_opener hmark
    cases he.symm.trans (Block.endAfter?_within hs.endAfter)
    refine ⟨finish + 1, _, rfl, ?_, .pass kind hs.endAfter⟩
    rw [← hl, LoopStack.popIfStart_raise hbase]
  | test hk =>
    have hend : body[index]? = some (some LoopKind.whileLoop.block.terminator) := hmark
    obtain ⟨f, rest, start, rfl, hf, -⟩ :=
      (htracks.around_of_terminator hend).top_of_terminator hn hend
    cases hl
    refine ⟨f.headerIndex, f :: rest, ?_, rfl, .test hk⟩
    simp only [LoopFrame.headerIndex, LoopFrame.raise, hf.start_eq]
    omega
  | again frame state hk hsame =>
    obtain ⟨f, rest, start, rfl, hf, -⟩ :=
      (htracks.around_of_terminator hmark).top_of_terminator hn hmark
    cases hl
    refine ⟨f.bodyIndex, { f with state } :: rest, ?_, rfl, .again f state hk hsame⟩
    simp only [LoopFrame.bodyIndex, LoopFrame.raise, hf.start_eq]
    omega
  | exhaust frame hk =>
    obtain ⟨f, rest, start, rfl, hf, -⟩ :=
      (htracks.around_of_terminator hmark).top_of_terminator hn hmark
    cases hl
    refine ⟨f.exitIndex, rest, ?_, rfl, .exhaust f hk⟩
    simp only [LoopFrame.exitIndex, LoopFrame.raise, hf.finish_eq]
    omega

theorem LoopStack.Tracks.finish_top (h : LoopStack.Tracks body index (frame :: rest)) :
    ∃ finish : Nat, frame.finish = finish := by
  cases h with
  | inside h =>
    obtain ⟨_, _, finish, hf, -⟩ := h.sound frame (by simp)
    exact ⟨finish, hf.finish_eq⟩
  | testing _ hf _ => exact ⟨_, hf.finish_eq⟩

/-- Behind the last mark no loop is in progress. -/
theorem LoopStack.Tracks.eq_nil (h : inner.Tracks body index) (hend : body.length ≤ index) :
    inner = [] := by
  have hnone {kind : BlockKind} {start finish : Nat} (hs : Block.Spans body kind start finish) :
      ¬ index ≤ finish := by
    simpa using hs.finish_lt.trans_le hend
  cases h with
  | inside h =>
    refine List.eq_nil_iff_forall_not_mem.2 fun f hf => ?_
    obtain ⟨_, _, _, -, hs, -, hle⟩ := h.sound f hf
    exact hnone hs hle
  | testing _ _ hs => exact absurd hs.start_lt.le (hnone hs)

/-- Control is in the body of a loop that has begun, or at its end: above the frames of the loops
in progress at that time are those of the loops of the body. -/
def Machine.Within (body : List Mark) (offset : Nat) (base : LoopStack) (state : Machine) : Prop :=
  ∃ (index : Nat) (inner : LoopStack), state.pc = offset + index ∧
    state.context.loops = inner.map (.raise offset) ++ base ∧ inner.Tracks body index

/-! ### Variables and outcomes -/

theorem Dict.get?_insert_self {κ α : Type} [BEq κ] [LawfulBEq κ] (k : κ) (v : α) (d : Dict κ α) :
    (d.insert k v).get? k = some v := by
  obtain ⟨entries⟩ := d
  induction entries with
  | nil => simp [get?, insert, put]
  | cons e entries ih =>
    obtain ⟨l, w⟩ := e
    by_cases hl : l = k
    · simp [get?, insert, put, hl]
    · simpa [get?, insert, put, hl] using ih

namespace Context

variable {name other : String} {c c' : Context}

theorem get?_setVariable (hname : name ≠ "") (v : Value) (c : Context) :
    (c.setVariable name v).bindings.get? name = some v := by
  rw [setVariable, if_neg hname]
  exact Dict.get?_insert_self name v c.bindings

theorem get?_setVariable_of_ne (h : other ≠ name) (v : Value) (c : Context) :
    (c.setVariable name v).bindings.get? other = c.bindings.get? other := by
  unfold setVariable
  split
  · rfl
  · exact Dict.get?_insert_of_ne h v c.bindings

theorem setVariables_congr (bindings : List (String × Value)) (h : c.bindings = c'.bindings) :
    (c.setVariables bindings).bindings = (c'.setVariables bindings).bindings := by
  induction bindings generalizing c c' with
  | nil => exact h
  | cons b bs ih =>
    refine ih ?_
    change (c.setVariable b.1 b.2).bindings = (c'.setVariable b.1 b.2).bindings
    unfold setVariable
    split
    · exact h
    · rw [bind, bind, h]

end Context

/-- What a header makes of its decision. -/
def HeaderOutcome.entry : HeaderOutcome → LoopEntry
  | .enter _ entry => entry
  | .skip | .refused _ => .skip

def HeaderOutcome.settle : HeaderOutcome → Context → Context
  | .skip, c => c
  | .enter bindings _, c => c.setVariables bindings
  | .refused message, c => c.addRecord
    [("node", .textOrNil c.label), ("status", .text "error"), ("message", .text message)]

theorem HeaderOutcome.apply_eq (o : HeaderOutcome) (c : Context) :
    o.apply c = .ok o.entry (o.settle c) := by
  cases o <;> rfl

/-- Evaluating a header whose configuration is accepted. -/
theorem evaluate_header {i : Instruction} {control : Control} {kind : HandlerKind}
    {handler : Handler} {eval : Scope → Eval HeaderOutcome} {c : Context}
    (hi : i.control = some control) (hk : HandlerKind.ofControl? control = some kind)
    (hd : Handler.decoder c.heap kind i.config.get? = .valid handler)
    (hrun : ∀ front caller, handler.run front caller =
      (do return .entry (← (← Exec.evaluate eval).apply) : Exec Reply))
    (front : String) (caller : Caller) :
    i.evaluate front caller c =
      match Exec.evaluate eval c with
      | .error f c' => .error f c'
      | .ok o c' => .ok (.entry o.entry) (o.settle c') := by
  rw [Instruction.evaluate_of_control hi hk, hd]
  simp only [hrun, bind, EStateM.bind, HeaderOutcome.apply_eq]
  cases Exec.evaluate eval c <;> rfl

namespace Setup

variable {s : Setup} {i : Instruction} {m m₁ m₂ m' m₀ : Machine} {start last : Nat}
  {state : LoopState}

/-- The setup of a run of some instruction list. -/
def OfList (s : Setup) : Prop :=
  ∃ settings run instructions functionScope room cancelAfter,
    s = Library.setupFor settings run instructions functionScope room cancelAfter

theorem OfList.caller (hs : s.OfList) : ∃ run, s.caller = Library.asCaller run := by
  obtain ⟨_, run, _, _, _, _, rfl⟩ := hs
  exact ⟨run, rfl⟩

theorem OfList.goes (hs : s.OfList) (h : s.step i m = (m', none)) : Goes s i m m' := by
  obtain ⟨run, hcaller⟩ := hs.caller
  exact (step_goes hcaller h).1

theorem OfList.marked {pc : Nat} (hs : s.OfList) (h : s.program.instructions[pc]? = some i) :
    s.program.marks[pc]? = some i.control := by
  obtain ⟨_, _, _, _, _, _, rfl⟩ := hs
  exact control_of_getElem? h

/-- A step in the body of a loop stays there, unless it breaks out of the loop. -/
theorem within_goes (hmarks : s.program.marks = before ++ (body ++ after))
    (hn : Block.Nested body) (hstart : frame.start < before.length)
    (hexit : before.length + body.length < frame.exitIndex)
    (hm : m.Within body before.length (frame :: rest)) (hpc : m.pc < before.length + body.length)
    (hmark : s.program.marks[m.pc]? = some i.control) (hg : Goes s i m m')
    (hpc' : m'.pc ≤ before.length + body.length) :
    m'.Within body before.length (frame :: rest) := by
  obtain ⟨index, inner, hindex, hloops, htracks⟩ := hm
  cases hg with
  | leaves top htop hto =>
    rw [hloops] at htop
    cases inner with
    | nil =>
      obtain ⟨rfl, -⟩ := List.cons.inj htop
      omega
    | cons f inner =>
      obtain ⟨rfl, htail⟩ := List.cons.inj htop
      obtain ⟨finish, hfinish⟩ := htracks.finish_top
      refine ⟨f.exitIndex, inner, hto.trans ?_, htail.symm, htracks.exit⟩
      simp only [LoopFrame.exitIndex, LoopFrame.raise, hfinish]
      omega
  | turns hturn =>
    rw [hindex, hmarks, Block.getElem?_within (by omega)] at hmark
    rw [hindex, hmarks, hloops] at hturn
    obtain ⟨index', inner', hto, hl, ht⟩ := Turn.within hn hmark htracks (by simpa using hstart) hturn
    exact ⟨index', inner', hto, hl, htracks.turn hn hmark ht⟩

/-! ### Passes -/

/-- Control goes from one state to another, which is the first at the end of the loop, through the
body of the loop only. -/
inductive Crosses (s : Setup) (start last : Nat) : Machine → Machine → Prop
  | arrive {m : Machine} (hpc : m.pc = last) : Crosses s start last m m
  | more {i : Instruction} {m m₁ m' : Machine} (hstart : start < m.pc) (hlast : m.pc < last)
      (hi : s.program.instructions[m.pc]? = some i) (hstep : s.step i m = (m₁, none))
      (h : Crosses s start last m₁ m') : Crosses s start last m m'

/-- A pass through the body of a loop that completes: control reaches the end of the loop, with
nothing pending. -/
structure Pass (s : Setup) (start last : Nat) (m m' : Machine) : Prop where
  begins : m.pc = start + 1
  crosses : s.Crosses start last m m'
  ready : s.Ready m'

theorem Crosses.pc_le (h : s.Crosses start last m m') : m.pc ≤ last := by
  cases h with
  | arrive hpc => exact hpc.le
  | more _ hlast => exact hlast.le

theorem Crosses.arrives (h : s.Crosses start last m m') : m'.pc = last := by
  induction h with
  | arrive hpc => exact hpc
  | more _ _ _ _ _ ih => exact ih

theorem Crosses.takes (h : s.Crosses start last m m') : ∃ n, s.Takes n m m' := by
  induction h with
  | arrive => exact ⟨0, .refl _⟩
  | more _ _ hi hstep _ ih =>
    obtain ⟨n, ht⟩ := ih
    exact ⟨n + 1, .more hi hstep ht⟩

theorem Crosses.within (hs : s.OfList) (hmarks : s.program.marks = before ++ (body ++ after))
    (hn : Block.Nested body) (hstart : frame.start < before.length)
    (hexit : before.length + body.length < frame.exitIndex)
    (h : s.Crosses start (before.length + body.length) m m')
    (hm : m.Within body before.length (frame :: rest)) :
    m'.Within body before.length (frame :: rest) := by
  induction h with
  | arrive => exact hm
  | more _ hlast hi hstep h ih =>
    exact ih (within_goes hmarks hn hstart hexit hm hlast (hs.marked hi) (hs.goes hstep) h.pc_le)

/-- A pass that completes leaves the loops in progress as they are. -/
theorem Pass.loops {kind : LoopKind} (hs : s.OfList)
    (hblock : Block.Spans s.program.marks kind.block start last) (h : s.Pass start last m m')
    (hm : m.context.loops = ⟨start, last, state⟩ :: rest) :
    m'.context.loops = ⟨start, last, state⟩ :: rest := by
  obtain ⟨before, body, after, hmarks, hb, rfl, rfl⟩ := hblock
  obtain ⟨hbegins, hcrosses, -⟩ := h
  have hsplit : s.program.marks = (before ++ [some kind.block.opener]) ++
      (body ++ some kind.block.terminator :: after) := by
    simpa using hmarks
  have hlength : (before ++ [some kind.block.opener]).length = before.length + 1 := by simp
  rw [← hlength] at hbegins hcrosses
  -- At the first mark of the body none of its loops is in progress yet.
  have hwithin : m.Within body (before ++ [some kind.block.opener]).length
      (⟨before.length, (before.length + 1 + body.length : Nat), state⟩ :: rest) := by
    refine ⟨0, [], hbegins, hm, .inside ⟨by simp, by simp, ?_⟩⟩
    exact fun _ _ _ _ hlt => absurd hlt (Nat.not_lt_zero _)
  obtain ⟨index, inner, hpc, hloops, htracks⟩ := hcrosses.within hs hsplit
    hb.nested_of_loop (by simp) (by simp [LoopFrame.exitIndex]; omega) hwithin
  obtain rfl : index = body.length := by
    have := hcrosses.arrives
    omega
  simpa [htracks.eq_nil le_rfl] using hloops

/-- One after the other, steps that begin a pass and passes that complete. The list has the first
and the last state of each pass. -/
inductive Rounds (s : Setup) (start last : Nat) : Machine → List (Machine × Machine) → Machine → Prop
  | done (m : Machine) : Rounds s start last m [] m
  | more {i : Instruction} {m m₁ m₂ m' : Machine} {passes : List (Machine × Machine)}
      (hi : s.program.instructions[m.pc]? = some i) (hstep : s.step i m = (m₁, none))
      (hpass : s.Pass start last m₁ m₂) (h : Rounds s start last m₂ passes m') :
      Rounds s start last m ((m₁, m₂) :: passes) m'

/-- Every pass of a loop completes. -/
def Completes (s : Setup) (start last : Nat) (m₀ : Machine) : Prop :=
  ∀ passes m i m₁, s.Rounds start last m₀ passes m → s.program.instructions[m.pc]? = some i →
    s.step i m = (m₁, none) → m₁.pc = start + 1 → ∃ m₂, s.Pass start last m₁ m₂

theorem Rounds.takes {passes : List (Machine × Machine)} (h : s.Rounds start last m passes m') :
    ∃ n, s.Takes n m m' := by
  induction h with
  | done => exact ⟨0, .refl _⟩
  | more hi hstep hpass _ ih =>
    obtain ⟨k, hk⟩ := hpass.crosses.takes
    obtain ⟨n, hn⟩ := ih
    exact ⟨k + n + 1, .more hi hstep (hk.trans hn)⟩

theorem Completes.after_pass (h : s.Completes start last m)
    (hi : s.program.instructions[m.pc]? = some i) (hstep : s.step i m = (m₁, none))
    (hpass : s.Pass start last m₁ m₂) : s.Completes start last m₂ :=
  fun _ m' _ m₁' hrounds => h _ m' _ m₁' (.more hi hstep hpass hrounds)

/-- The first state at the end of the loop, if control gets there in so many steps. -/
def crossed? (s : Setup) (start last : Nat) : (fuel : Nat) → Machine → Option Machine
  | 0, m => if m.pc = last then some m else none
  | fuel + 1, m =>
    if m.pc = last then some m
    else if start < m.pc && m.pc < last then do
      let i ← s.program.instructions[m.pc]?
      match s.step i m with
      | (m₁, none) => s.crossed? start last fuel m₁
      | (_, some _) => none
    else none

theorem crosses_of_crossed? {fuel : Nat} (h : s.crossed? start last fuel m = some m') :
    s.Crosses start last m m' := by
  induction fuel generalizing m with
  | zero =>
    unfold crossed? at h
    split at h
    · next hpc =>
      cases h
      exact .arrive hpc
    · cases h
  | succ fuel ih =>
    unfold crossed? at h
    split at h
    · next hpc =>
      cases h
      exact .arrive hpc
    · split at h
      · next hin =>
        obtain ⟨i, hi, h⟩ := Option.bind_eq_some_iff.1 h
        split at h
        · next hstep =>
          simp only [Bool.and_eq_true, decide_eq_true_eq] at hin
          exact .more hin.1 hin.2 hi hstep (ih h)
        · cases h
      · cases h

theorem Crosses.unique (h : s.Crosses start last m m₁) (h' : s.Crosses start last m m₂) :
    m₁ = m₂ := by
  induction h with
  | arrive hpc =>
    cases h' with
    | arrive => rfl
    | more _ hlast => omega
  | more _ hlast hi hstep _ ih =>
    cases h' with
    | arrive => omega
    | more _ _ hi' hstep' h' =>
      cases hi.symm.trans hi'
      cases hstep.symm.trans hstep'
      exact ih h'

/-- Whether a loop is left after less than so many passes, each of which completes in so many steps,
with something that holds before every pass and after the last one. -/
def completes? (s : Setup) (start last fuel : Nat) (holds : Machine → Bool) :
    (count : Nat) → Machine → Bool
  | 0, _ => false
  | count + 1, m =>
    holds m &&
      match s.program.instructions[m.pc]? with
      | none => true
      | some i =>
        match s.step i m with
        | (_, some _) => true
        | (m₁, none) =>
          if m₁.pc = start + 1 then
            match s.crossed? start last fuel m₁ with
            | some m₂ => s.isReady m₂ && s.completes? start last fuel holds count m₂
            | none => false
          else true

theorem completes_of_completes? (holds : Machine → Bool) (fuel count : Nat)
    (h : s.completes? start last fuel holds count m = true) :
    s.Completes start last m ∧
      ∀ passes m', s.Rounds start last m passes m' → holds m' = true := by
  induction count generalizing m with
  | zero => cases h
  | succ count ih =>
    rw [completes?, Bool.and_eq_true] at h
    have hpass {i : Instruction} {m₁ : Machine} (hi : s.program.instructions[m.pc]? = some i)
        (hstep : s.step i m = (m₁, none)) (hpc : m₁.pc = start + 1) :
        ∃ m₂, s.Pass start last m₁ m₂ ∧ s.completes? start last fuel holds count m₂ = true := by
      have h := h.2
      simp only [hi, hstep, hpc, if_true] at h
      split at h
      · next m₂ hcrossed =>
        rw [Bool.and_eq_true] at h
        exact ⟨m₂, ⟨hpc, crosses_of_crossed? hcrossed, isReady_iff.1 h.1⟩, h.2⟩
      · cases h
    constructor
    · intro passes m' i m₁ hr hi hstep hpc
      cases hr with
      | done =>
        obtain ⟨m₂, hm₂, -⟩ := hpass hi hstep hpc
        exact ⟨m₂, hm₂⟩
      | more hi' hstep' hpass' hr =>
        obtain ⟨m₂, hm₂, hc⟩ := hpass hi' hstep' hpass'.begins
        cases hm₂.crosses.unique hpass'.crosses
        exact (ih hc).1 _ _ _ _ hr hi hstep hpc
    · intro passes m' hr
      cases hr with
      | done => exact h.1
      | more hi hstep hpass' hr =>
        obtain ⟨m₂, hm₂, hc⟩ := hpass hi hstep hpass'.begins
        cases hm₂.crosses.unique hpass'.crosses
        exact (ih hc).2 _ _ hr

/-! ### Decisions -/

/-- A step that begins a pass, with the frame of the loop on top and its variables set. -/
structure Opens (s : Setup) (start last : Nat) (rest : LoopStack) (state : LoopState)
    (bindings : List (String × Value)) (m m₁ : Machine) : Prop where
  step : ∃ i, s.program.instructions[m.pc]? = some i ∧ s.step i m = (m₁, none)
  pc : m₁.pc = start + 1
  loops : m₁.context.loops = ⟨start, last, state⟩ :: rest
  bindings : m₁.context.bindings = (m.context.setVariables bindings).bindings

/-- A step that leaves a loop, with no variable set. -/
structure Leaves (s : Setup) (last : Nat) (rest : LoopStack) (m m₁ : Machine) : Prop where
  step : ∃ i, s.program.instructions[m.pc]? = some i ∧ s.step i m = (m₁, none)
  pc : m₁.pc = last + 1
  loops : m₁.context.loops = rest
  bindings : m₁.context.bindings = m.context.bindings

/-- What comes next in a loop: what its frame holds in a further pass and the variables that are set
for it, or nothing. -/
abbrev Decision := Option (LoopState × List (String × Value))

def Decides (s : Setup) (start last : Nat) (rest : LoopStack) (m : Machine) : Decision → Prop
  | some (state, bindings) => ∃ m₁, s.Opens start last rest state bindings m m₁
  | none => ∃ m₁, s.Leaves last rest m m₁

/-- A loop goes by a law, which says what is decided after so many passes. -/
structure Obeys (s : Setup) (start last : Nat) (rest : LoopStack)
    (law : Nat → Context → Decision) (m₀ : Machine) : Prop where
  setup : s.OfList
  block : ∃ kind : LoopKind, Block.Spans s.program.marks kind.block start last
  first : s.Decides start last rest m₀ (law 0 m₀.context)
  next {k : Nat} {c : Context} {state : LoopState} {bindings : List (String × Value)} {m : Machine} :
    law k c = some (state, bindings) → m.pc = last → s.Ready m →
    m.context.loops = ⟨start, last, state⟩ :: rest →
    s.Decides start last rest m (law (k + 1) m.context)

/-- A loop runs through passes, one after the other, and is left; it takes so many steps. -/
structure RunsThrough (s : Setup) (start last : Nat) (m₀ : Machine)
    (passes : List (Machine × Machine)) (final : Machine) : Prop where
  rounds : ∃ m, s.Rounds start last m₀ passes m ∧ s.Leaves last m₀.context.loops m final
  steps : ∃ n, s.Takes n m₀ final ∧
    ∀ budget, n ≤ budget → s.steps budget m₀ = s.steps (budget - n) final

theorem Decides.opens {d : Decision} (hlt : start < last) (h : s.Decides start last rest m d)
    (hi : s.program.instructions[m.pc]? = some i) (hstep : s.step i m = (m₁, none))
    (hpc : m₁.pc = start + 1) :
    ∃ state bindings, d = some (state, bindings) ∧ s.Opens start last rest state bindings m m₁ := by
  match d with
  | some (state, bindings) =>
    obtain ⟨m', h⟩ := h
    obtain ⟨i', hi', hstep'⟩ := h.step
    cases hi.symm.trans hi'
    cases hstep.symm.trans hstep'
    exact ⟨state, bindings, rfl, h⟩
  | none =>
    obtain ⟨m', h⟩ := h
    obtain ⟨i', hi', hstep'⟩ := h.step
    cases hi.symm.trans hi'
    cases hstep.symm.trans hstep'
    have := h.pc
    omega

section Laws

variable {law : Nat → Context → Decision} {passes : List (Machine × Machine)}

/-- The step that begins a pass is the one that the law says. -/
theorem Obeys.opens (h : s.Obeys start last rest law m)
    (hi : s.program.instructions[m.pc]? = some i) (hstep : s.step i m = (m₁, none))
    (hpc : m₁.pc = start + 1) :
    ∃ state bindings, law 0 m.context = some (state, bindings) ∧
      s.Opens start last rest state bindings m m₁ := by
  obtain ⟨kind, hblock⟩ := h.block
  exact h.first.opens hblock.start_lt hi hstep hpc

/-- After a pass the loop goes by the rest of its law. -/
theorem Obeys.after_pass (h : s.Obeys start last rest law m)
    (hi : s.program.instructions[m.pc]? = some i) (hstep : s.step i m = (m₁, none))
    (hpass : s.Pass start last m₁ m₂) : s.Obeys start last rest (fun k => law (k + 1)) m₂ where
  setup := h.setup
  block := h.block
  first := by
    obtain ⟨kind, hblock⟩ := h.block
    obtain ⟨state, bindings, hlaw, ho⟩ := h.opens hi hstep hpass.begins
    exact h.next hlaw hpass.crosses.arrives hpass.ready (hpass.loops h.setup hblock ho.loops)
  next := h.next

/-- What is decided after so many passes. -/
theorem Obeys.decides (h : s.Obeys start last rest law m)
    (hr : s.Rounds start last m passes m') :
    s.Decides start last rest m' (law passes.length m'.context) := by
  induction hr generalizing law with
  | done => exact h.first
  | more hi hstep hpass _ ih => exact ih (h.after_pass hi hstep hpass)

/-- How each pass began: in the state at the end of the passes before it. -/
theorem Obeys.opened (h : s.Obeys start last rest law m) (hr : s.Rounds start last m passes m')
    {k : Nat} (hk : k < passes.length) :
    ∃ decided state bindings, s.Rounds start last m (passes.take k) decided ∧
      law k decided.context = some (state, bindings) ∧
      s.Opens start last rest state bindings decided passes[k].1 := by
  induction hr generalizing law k with
  | done => simp at hk
  | @more i m m₁ m₂ m' passes hi hstep hpass _ ih =>
    cases k with
    | zero =>
      obtain ⟨state, bindings, hlaw, ho⟩ := h.opens hi hstep hpass.begins
      exact ⟨m, state, bindings, .done m, hlaw, ho⟩
    | succ k =>
      obtain ⟨decided, state, bindings, hr, ho⟩ :=
        ih (h.after_pass hi hstep hpass) (by simpa using hk)
      exact ⟨decided, state, bindings, .more hi hstep hpass hr, ho⟩

/-- As long as the law begins a further pass, there is one. -/
theorem Obeys.rounds (h : s.Obeys start last rest law m) (hc : s.Completes start last m)
    (count : Nat) (hlaw : ∀ passes m', s.Rounds start last m passes m' → passes.length < count →
      (law passes.length m'.context).isSome) :
    ∃ passes m', s.Rounds start last m passes m' ∧ passes.length = count := by
  induction count generalizing law m with
  | zero => exact ⟨[], m, .done m, rfl⟩
  | succ count ih =>
    obtain ⟨⟨state, bindings⟩, hfirst⟩ :=
      Option.isSome_iff_exists.1 (hlaw [] m (.done m) (Nat.succ_pos count))
    have hdecides := h.first
    rw [show law 0 m.context = _ from hfirst] at hdecides
    obtain ⟨m₁, ho⟩ := hdecides
    obtain ⟨i, hi, hstep⟩ := ho.step
    obtain ⟨m₂, hpass⟩ := hc [] m i m₁ (.done m) hi hstep ho.pc
    obtain ⟨passes, m', hr, hlength⟩ := ih (h.after_pass hi hstep hpass)
      (hc.after_pass hi hstep hpass) fun passes m' hr hlt => by
        simpa using hlaw _ m' (.more hi hstep hpass hr) (by simpa using hlt)
    exact ⟨_, m', .more hi hstep hpass hr, by simp [hlength]⟩

/-- A loop that is left after passes has run through them. -/
theorem Rounds.runsThrough {final : Machine} (hr : s.Rounds start last m passes m')
    (hleaves : s.Leaves last m.context.loops m' final) :
    s.RunsThrough start last m passes final := by
  obtain ⟨i, hi, hstep⟩ := hleaves.step
  obtain ⟨n, ht⟩ := hr.takes
  have htakes := ht.trans (.one hi hstep)
  refine ⟨⟨m', hr, hleaves⟩, n + 1, htakes, fun budget hb => ?_⟩
  obtain ⟨-, hsteps⟩ | ⟨hlt, -⟩ := htakes.steps_eq budget
  · exact hsteps
  · omega

/-- A loop whose law begins so many passes and no more runs through as many. -/
theorem Obeys.runsThrough (h : s.Obeys start last m.context.loops law m)
    (hc : s.Completes start last m) (count : Nat)
    (hlaw : ∀ passes m', s.Rounds start last m passes m' → passes.length ≤ count →
      ((law passes.length m'.context).isSome ↔ passes.length < count)) :
    ∃ passes final, s.RunsThrough start last m passes final ∧ passes.length = count := by
  obtain ⟨passes, m', hr, hlength⟩ := h.rounds hc count
    fun passes m' hr hlt => (hlaw passes m' hr hlt.le).2 hlt
  have hdecides := h.decides hr
  have hnone : law passes.length m'.context = none := by
    simpa [hlength] using hlaw passes m' hr hlength.le
  rw [hnone] at hdecides
  obtain ⟨final, hleaves⟩ := hdecides
  exact ⟨passes, final, hr.runsThrough hleaves, hlength⟩

end Laws

/-! ### Headers and ends -/

/-- Control is at the header of a loop whose body is nested, with nothing pending. -/
structure AtLoop (s : Setup) (kind : LoopKind) (i : Instruction) (start last : Nat) (m : Machine) :
    Prop where
  setup : s.OfList
  reachable : s.Reachable m
  ready : s.Ready m
  pc : m.pc = start
  header : s.program.instructions[start]? = some i
  block : Block.Spans s.program.marks kind.block start last

/-- A step at a control instruction when nothing is pending. -/
theorem step_performs {control : Control} (hready : s.Ready m) (hi : i.control = some control) :
    s.step i m =
      match s.perform m.pc i (visit i m).context with
      | .error f c =>
        ({ visit i m with context := s.fail f.kind (f.report i.displayName m.pc) (some m.pc) c },
          some .failed)
      | .ok pc c => ({ visit i m with context := c, pc }, none) := by
  rw [step_ready hready, dispatch, isUnknown_of_control hi]
  simp only [Bool.false_eq_true, if_false]
  generalize hr : s.perform (visit i m).pc i (visit i m).context = r
  rw [show s.perform m.pc i (visit i m).context = r from hr]
  cases r <;> rfl

theorem evaluate_of_mark {control : Control} (hi : i.control = some control)
    (hk : HandlerKind.ofControl? control = none) (front : String) (caller : Caller) (c : Context) :
    i.evaluate front caller c = .ok .nothing c := by
  have htag : HandlerKind.ofTag? i.tag = none := by
    unfold HandlerKind.ofTag?
    rw [show Control.ofTag? i.tag = some control from hi]
    exact hk
  unfold Instruction.evaluate
  rw [htag]
  rfl

/-- A step at the end of a loop when nothing is pending. -/
theorem step_terminator {kind : LoopKind} (hready : s.Ready m)
    (hi : i.control = some kind.block.terminator) :
    s.step i m =
      match s.program.next m.pc kind.block.terminator .nothing (visit i m).context with
      | .error f c =>
        ({ visit i m with context := s.fail f.kind (f.report i.displayName m.pc) (some m.pc) c },
          some .failed)
      | .ok pc c => ({ visit i m with context := c, pc }, none) := by
  have hmark : HandlerKind.ofControl? kind.block.terminator = none := by cases kind <;> rfl
  rw [step_performs hready hi, perform_apply, evaluate_of_mark hi hmark]
  simp only [hi]
  rfl

section AtLoop

variable {kind : LoopKind} {reply : Reply} {c : Context} {f : Fault}

theorem AtLoop.control (h : s.AtLoop kind i start last m) :
    i.control = some kind.block.opener :=
  Option.some.inj ((h.setup.marked h.header).symm.trans h.block.getElem_start)

/-- The end of the loop. -/
theorem AtLoop.finisher (h : s.AtLoop kind i start last m) :
    ∃ t, s.program.instructions[last]? = some t ∧ t.control = some kind.block.terminator := by
  have hmark := h.block.getElem_finish
  have hlt : last < s.program.instructions.size := by
    obtain ⟨_, _, _, _, _, _, rfl⟩ := h.setup
    simpa [Library.setupFor, Program.ofInstructions] using (List.getElem?_eq_some_iff.1 hmark).1
  have hi := Array.getElem?_eq_getElem hlt
  exact ⟨_, hi, Option.some.inj ((h.setup.marked hi).symm.trans hmark)⟩

/-- Loops that count or go over a table are not in progress at their own header. -/
theorem AtLoop.below (h : s.AtLoop kind i start last m) (hk : kind ≠ .whileLoop) :
    ∀ f ∈ m.context.loops.head?, f.start < start := by
  obtain ⟨c, n, hc, ht⟩ := h.reachable
  have hordered : LoopStack.Ordered s.program.marks m.pc m.context.loops := by
    refine ht.keeps (P := fun m => LoopStack.Ordered s.program.marks m.pc m.context.loops) ?_ ?_
    · intro i m m' hi hstep hm
      exact ordered_goes (h.setup.goes hstep) (h.setup.marked hi) hm
    · rw [hc.loops]
      exact ⟨Nat.zero_le _, by simp, by simp, by simp⟩
  intro f hf
  rw [h.pc] at hordered
  obtain hlt | ⟨hkind, hstart⟩ := hordered.top f hf
  · exact hlt
  · -- The header of a loop with a condition is not that of this loop.
    have hheader := (hordered.fits f (List.mem_of_mem_head? hf)).header
    rw [hstart, Int.toNat_natCast, h.block.getElem_start, hkind] at hheader
    cases kind <;> simp_all [LoopKind.block, BlockKind.opener]

theorem AtLoop.perform (h : s.AtLoop kind i start last m) (hk : kind ≠ .whileLoop)
    (he : i.evaluate s.settings.functionPrefix s.caller (visit i m).context = .ok reply c)
    (hlog : logged i reply c = c) :
    s.perform m.pc i (visit i m).context =
      match Host.entered? kind reply with
      | some state =>
        .ok (start + 1) (c.withLoops (⟨start, last, state⟩ :: m.context.loops))
      | none => .ok (last + 1) (c.withLoops m.context.loops) := by
  have hloops : c.loops = m.context.loops := by
    obtain ⟨run, hcaller⟩ := h.setup.caller
    have hw := (worked_evaluate i s.settings.functionPrefix run (visit i m).context).loops
    rwa [Exec.after, ← hcaller, he] at hw
  have hbelow := h.below hk
  rw [perform_apply, he]
  simp only [h.control, hlog, next_opener, Program.enterLoop_apply, h.pc,
    h.block.endAfter, hloops]
  cases Host.entered? kind reply with
  | some state => simp only [Script.pushIfNew_new hbelow]
  | none => simp only [Script.popIfStart_new hbelow]

/-- A step at the header of a loop that is entered. -/
theorem AtLoop.step_entered (h : s.AtLoop kind i start last m) (hk : kind ≠ .whileLoop)
    (he : i.evaluate s.settings.functionPrefix s.caller (visit i m).context = .ok reply c)
    (hlog : logged i reply c = c) (hentered : Host.entered? kind reply = some state) :
    s.step i m =
      ({ visit i m with
         context := c.withLoops (⟨start, last, state⟩ :: m.context.loops), pc := start + 1 },
       none) := by
  rw [step_performs h.ready h.control, h.perform hk he hlog, hentered]

/-- A step at the header of a loop that is not entered. -/
theorem AtLoop.step_skipped (h : s.AtLoop kind i start last m) (hk : kind ≠ .whileLoop)
    (he : i.evaluate s.settings.functionPrefix s.caller (visit i m).context = .ok reply c)
    (hlog : logged i reply c = c) (hentered : Host.entered? kind reply = none) :
    s.step i m =
      ({ visit i m with context := c.withLoops m.context.loops, pc := last + 1 }, none) := by
  rw [step_performs h.ready h.control, h.perform hk he hlog, hentered]

/-- A step at a header that fails. -/
theorem AtLoop.step_failed (h : s.AtLoop kind i start last m)
    (he : i.evaluate s.settings.functionPrefix s.caller (visit i m).context = .error f c) :
    ∃ m', s.step i m = (m', some .failed) := by
  rw [step_performs h.ready h.control, perform_apply, he]
  exact ⟨_, rfl⟩

/-- A header that decides on a pass begins it. -/
theorem AtLoop.decides_entered (h : s.AtLoop kind i start last m) (hk : kind ≠ .whileLoop)
    {bindings : List (String × Value)} {entry : LoopEntry}
    (he : i.evaluate s.settings.functionPrefix s.caller (visit i m).context =
      .ok (.entry entry) (c.setVariables bindings))
    (hc : (visit i m).context.Evaluated c)
    (hentered : Host.entered? kind (.entry entry) = some state) :
    s.Decides start last m.context.loops m (some (state, bindings)) := by
  have hstep := h.step_entered hk he rfl hentered
  have hbindings : c.bindings = m.context.bindings := by rw [hc]; rfl
  exact ⟨_, ⟨i, by rw [h.pc]; exact h.header, hstep⟩, rfl, rfl,
    Context.setVariables_congr bindings hbindings⟩

/-- A header that decides on no pass leaves the loop. -/
theorem AtLoop.decides_skipped (h : s.AtLoop kind i start last m) (hk : kind ≠ .whileLoop)
    (he : i.evaluate s.settings.functionPrefix s.caller (visit i m).context =
      .ok (.entry .skip) c)
    (hc : (visit i m).context.Evaluated c) :
    s.Decides start last m.context.loops m none := by
  have hentered : Host.entered? kind (.entry .skip) = none := by cases kind <;> rfl
  have hstep := h.step_skipped hk he rfl hentered
  have hbindings : c.bindings = m.context.bindings := by rw [hc]; rfl
  exact ⟨_, ⟨i, by rw [h.pc]; exact h.header, hstep⟩, rfl, rfl, hbindings⟩

/-- The end of a loop decides what the transition of its mark carries out. -/
theorem AtLoop.decides_end (h : s.AtLoop kind i start last m) {rest : LoopStack} {d : Decision}
    (hpc : m'.pc = last) (hready : s.Ready m')
    (hloops : m'.context.loops = ⟨start, last, state⟩ :: rest)
    (hnext : ∀ c : Context, c.heap = m'.context.heap →
      s.program.next last kind.block.terminator .nothing
          (c.withLoops (⟨start, last, state⟩ :: rest)) =
        match d with
        | some (state, bindings) =>
          .ok (start + 1) ((c.withLoops (⟨start, last, state⟩ :: rest)).setVariables bindings)
        | none => .ok (last + 1) (c.withLoops rest)) :
    s.Decides start last rest m' d := by
  obtain ⟨t, ht, hterminator⟩ := h.finisher
  have hcontext : (visit t m').context.withLoops (⟨start, last, state⟩ :: rest) =
      (visit t m').context := by
    rw [← hloops]
    rfl
  have hcarried := hnext (visit t m').context rfl
  have hstep := step_terminator hready hterminator
  rw [← hpc] at ht
  rw [hcontext] at hcarried
  rw [hpc, hcarried] at hstep
  match d with
  | none => exact ⟨_, ⟨t, ht, hstep⟩, rfl, rfl, rfl⟩
  | some (state, bindings) =>
    exact ⟨_, ⟨t, ht, hstep⟩, rfl, tolerant_loops.setVariables _ _,
      Context.setVariables_congr _ rfl⟩

end AtLoop

end Setup

end NodeScript
