import NodeScript.Proofs.CallTargets
import NodeScript.Proofs.FirstReturn

/-!
The warning about loops that are in progress when a run has ended. It is meant for lists in which a
loop is not closed. Lists that pass the check can show it as well: a return in a function ends the
run where it stands, with all the loops around it still in progress. Nothing else leaves a loop in
progress there.
-/

namespace NodeScript

variable {s : Setup} {run : Library.Runner} {i j : Instruction} {m m' m₁ : Machine} {k n : Nat}
  {c c' : Context} {v : Value} {source : String} {marks : List Mark} {d : Diagnostic}

/-! ### The line that is shown -/

theorem Text.take_toList_append {a b : String} {n : Nat} (h : n ≤ a.toList.length) :
    (a ++ b).toList.take n = a.toList.take n := by
  rw [String.toList_append, List.take_append_of_le_length h]

theorem Text.getLast?_toList_append {a b : String} {last : Char}
    (h : b.toList.getLast? = some last) : (a ++ b).toList.getLast? = some last := by
  rw [String.toList_append, List.getLast?_append, h, Option.some_or]

namespace Diagnostic

/-- What is said about loops in progress. -/
def danglingText (shown : String) : String :=
  s!"Execution finished, but loop stack is not empty: [{shown}]. Missing End node(s)?"

/-- The line about loops in progress. -/
def danglingLine (shown : String) : String :=
  s!"[warning] Execution finished, but loop stack is not empty: [{shown}]. Missing End node(s)?"

/-- The diagnostic is shown as a line about loops in progress. -/
def IsDangling (d : Diagnostic) : Prop :=
  ∃ shown, d.line = danglingLine shown

/-- Where a line says that it belongs. -/
def place (d : Diagnostic) : String :=
  match d.index with
  | some index => " (index " ++ toString index ++ ")"
  | none => ""

theorem line_eq (d : Diagnostic) :
    d.line = "[" ++ d.severity.name ++ "] " ++ (d.message ++ d.place) := by
  rw [← String.append_assoc]
  unfold line place
  cases d.index <;> rfl

theorem isDangling_of_message {shown : String} (hs : d.severity = .warning) (hi : d.index = none)
    (hm : d.message = danglingText shown) : d.IsDangling := by
  have hopening : "[" ++ Severity.warning.name ++ "] " ++
      "Execution finished, but loop stack is not empty: [" =
        "[warning] Execution finished, but loop stack is not empty: [" := rfl
  refine ⟨shown, ?_⟩
  rw [line_eq, hs, hm, place, hi, String.append_empty]
  change _ ++ ("Execution finished, but loop stack is not empty: [" ++ shown ++
    "]. Missing End node(s)?") = _
  rw [← String.append_assoc, ← String.append_assoc, hopening]
  rfl

theorem take_danglingLine (shown : String) :
    (danglingLine shown).toList.take 11 = "[warning] E".toList := by
  have hline : danglingLine shown =
      "[warning] Execution finished, but loop stack is not empty: [" ++
        (shown ++ "]. Missing End node(s)?") := String.append_assoc ..
  rw [hline, Text.take_toList_append (by decide)]
  rfl

/-- A line that begins in another way is not about loops in progress. -/
theorem IsDangling.opening (h : d.IsDangling) {opening rest : String}
    (hline : d.line = opening ++ rest) (n : Nat) (hn : n ≤ 11) (hle : n ≤ opening.toList.length) :
    opening.toList.take n = "[warning] E".toList.take n := by
  obtain ⟨shown, h⟩ := h
  calc opening.toList.take n
    _ = d.line.toList.take n := by rw [hline, Text.take_toList_append hle]
    _ = ((danglingLine shown).toList.take 11).take n := by rw [h, List.take_take, min_eq_left hn]
    _ = "[warning] E".toList.take n := by rw [take_danglingLine]

theorem IsDangling.severity_eq (h : d.IsDangling) : d.severity = .warning := by
  cases hs : d.severity with
  | warning => rfl
  | error =>
    have hline := d.line_eq
    rw [hs] at hline
    exact absurd (h.opening hline 2 (by decide) (by decide)) (by decide)

/-- A line that names an instruction ends in another way. -/
theorem IsDangling.index_eq (h : d.IsDangling) : d.index = none := by
  obtain ⟨shown, h⟩ := h
  cases hi : d.index with
  | none => rfl
  | some index =>
    have hplace : d.line.toList.getLast? = some ')' := by
      rw [line_eq, place, hi]
      exact Text.getLast?_toList_append
        (Text.getLast?_toList_append (Text.getLast?_toList_append rfl))
    have hdangling : (danglingLine shown).toList.getLast? = some '?' :=
      Text.getLast?_toList_append rfl
    rw [h, hdangling] at hplace
    cases hplace

theorem not_isDangling_of_invalidName {shown : String} (hs : d.severity = .warning)
    (hm : d.message = Context.invalidName shown) : ¬ d.IsDangling := by
  intro h
  have hline : d.line = "[" ++ Severity.warning.name ++ "] " ++
      "Attempted to set variable with invalid name: " ++ (shown ++ d.place) := by
    rw [line_eq, hs, hm]
    simp only [String.append_assoc]
    rfl
  exact absurd (h.opening hline 11 (by decide) (by decide)) (by decide)

end Diagnostic

/-! ### What is reported before the end -/

/-- No diagnostic is about loops in progress. -/
def Context.Quiet (c : Context) : Prop :=
  ∀ d ∈ c.diagnostics, ¬ d.IsDangling

theorem Context.Quiet.report (h : c.Quiet) (hd : ¬ d.IsDangling) : (c.report d).Quiet := by
  intro d' hd'
  obtain hd' | rfl := Array.mem_push.1 hd'
  · exact h d' hd'
  · exact hd

/-- While an instruction is at hand, warnings name it. -/
theorem Context.Quiet.warn (h : c.Quiet) (hc : c.position ≠ none) (message : String) :
    (c.warn message).Quiet :=
  h.report fun hd => hc hd.index_eq

theorem Context.Quiet.setVariable (h : c.Quiet) (name : String) (v : Value) :
    (c.setVariable name v).Quiet := by
  unfold Context.setVariable
  split
  · exact h.report (Diagnostic.not_isDangling_of_invalidName rfl rfl)
  · exact h

theorem tolerant_quiet : Tolerant fun c c' =>
    c'.position = c.position ∧ (c.position ≠ none → c.Quiet → c'.Quiet) where
  refl _ := ⟨rfl, fun _ h => h⟩
  trans h h' := ⟨h'.1.trans h.1, fun hc hq => h'.2 (by rwa [h.1]) (h.2 hc hq)⟩
  warn message _ := ⟨rfl, fun hc hq => hq.warn hc message⟩
  addRecord _ _ := ⟨rfl, fun _ h => h⟩
  bind _ _ _ := ⟨rfl, fun _ h => h⟩
  share _ _ _ := ⟨rfl, fun _ h => h⟩

namespace Setup

theorem fail_quiet (hc : c.Quiet) (kind : DiagnosticKind) (message : String) (index : Option Nat) :
    (s.fail kind message index c).Quiet :=
  hc.report fun hd => by cases hd.severity_eq

theorem Begins.quiet (h : s.Begins c) : c.Quiet := by
  obtain ⟨names, args, heap, notices, h⟩ := h
  have hstart : (s.start heap notices).Quiet := fun d hd => by simp [start, Context.fresh] at hd
  refine bindNamed_keeps (P := Context.Quiet) ?_ ?_ hstart h
  · intro name v c hc
    exact hc.setVariable name v
  · intro shown c hc
    exact hc.report (Diagnostic.not_isDangling_of_invalidName rfl rfl)

/-- No step reports that a loop is in progress, whether it ends the run or not. -/
theorem step_quiet (hs : s.caller = Library.asCaller run) (hm : m.context.Quiet)
    (i : Instruction) : (s.step i m).1.context.Quiet := by
  have hvisit : (visit i m).context.Quiet := hm
  have hposition : (visit i m).context.position ≠ none := Option.some_ne_none _
  rw [step_apply]
  split
  · exact fail_quiet hm _ _ _
  · split
    · exact hvisit
    · split
      · unfold leaveLoop
        split
        · exact hvisit
        · exact fail_quiet hvisit _ _ _
      · unfold dispatch
        split
        · unfold passUnknown
          split
          · exact hvisit.warn hposition _
          · exact hvisit
        · have hperform := (perform_tolerant tolerant_quiet (fun _ _ => ⟨rfl, fun _ h => h⟩)
            (fun _ => ⟨rfl, fun _ h => h⟩) (fun _ _ _ => ⟨rfl, fun _ h => h⟩) hs m.pc i
            (visit i m).context).2 hposition hvisit
          dsimp only
          rw [Exec.after] at hperform
          split
          · next hr =>
            rw [show s.perform m.pc i (visit i m).context = _ from hr] at hperform
            exact hperform
          · next hr =>
            rw [show s.perform m.pc i (visit i m).context = _ from hr] at hperform
            exact fail_quiet hperform _ _ _

theorem Takes.quiet (hs : s.caller = Library.asCaller run) (hc : s.Begins c)
    (ht : s.Takes n { context := c } m) : m.context.Quiet :=
  ht.keeps (P := fun m => m.context.Quiet)
    (fun i m m' _ hstep hm => by simpa [hstep] using step_quiet hs hm i) hc.quiet

/-- Only a run that comes to an end by itself, or by a return, with loops in progress says so. -/
theorem dangling_conclude_iff {ending : Ending} (hm : m.context.Quiet) :
    (∃ d ∈ (s.conclude m ending).2.diagnostics, d.IsDangling) ↔
      (ending = .finished ∨ ending = .returned) ∧ m.context.loops ≠ [] := by
  have hquiet {c : Context} (hc : c.Quiet) : ¬ ∃ d ∈ c.diagnostics, d.IsDangling :=
    fun ⟨d, hd, hdangling⟩ => hc d hd hdangling
  constructor
  · intro h
    unfold conclude at h
    split at h
    · exact absurd h (hquiet hm)
    · exact absurd h (hquiet (fail_quiet hm _ _ _))
    all_goals
      split at h
      · split at h
        · exact absurd h (hquiet (fail_quiet hm _ _ _))
        · exact absurd h (hquiet hm)
      · next hloops => exact ⟨by simp, by simpa using hloops⟩
  · rintro ⟨hending, hloops⟩
    have hempty : m.context.loops.isEmpty = false := by simpa using hloops
    have hconclude : (s.conclude m ending).2 = { m.context with position := none }.warn
        (Diagnostic.danglingText m.context.loops.describe) := by
      obtain rfl | rfl := hending <;> simp only [conclude, hempty] <;> rfl
    rw [hconclude]
    exact ⟨_, Array.mem_push_self, Diagnostic.isDangling_of_message rfl rfl rfl⟩

/-- A return that is carried out leaves the loops in progress. -/
theorem Returns.step_loops (h : s.Returns c k i m v source) :
    ∃ m', s.step i m = (m', none) ∧ m'.pc = m.pc + 1 ∧ m'.context.loops = m.context.loops ∧
      m'.context.returned.isSome = true := by
  obtain ⟨g, c', hg, he⟩ := h.computes
  obtain ⟨c'', hrun, hslot, -, hloops⟩ := g.run_of_ok he
  rw [step_ready h.ready, dispatch, isUnknown_of_control h.control]
  simp only [Bool.false_eq_true, if_false, perform_apply, evaluate_giveBack h.control, hg, hrun,
    h.control]
  exact ⟨_, rfl, rfl, hloops, Option.isSome_of_eq_some hslot⟩

end Setup

/-! ### Returns inside of loops -/

/-- A loop block is around the index. -/
def Block.InLoop (marks : List Mark) (index : Nat) : Prop :=
  ∃ (kind : LoopKind) (start finish : Nat), Spans marks kind.block start finish ∧
    start < index ∧ index < finish

/-- At a plain instruction of a nested list, loops are in progress just when one is around it. -/
theorem LoopStack.Tracks.ne_nil_iff_inLoop {pc : Nat} {loops : LoopStack} {mark : Mark}
    (h : loops.Tracks marks pc) (hm : marks[pc]? = some mark) (hplain : Block.isPlain mark = true) :
    loops ≠ [] ↔ Block.InLoop marks pc := by
  have haround : loops.Around marks pc := by
    refine h.around fun hwhile => ?_
    exact Block.isPlain_ne_opener hplain .whileLoop (Option.some.inj (hm.symm.trans hwhile))
  constructor
  · intro hne
    obtain ⟨f, hf⟩ := List.exists_mem_of_ne_nil loops hne
    obtain ⟨kind, start, finish, -, hspans, hlt, hle⟩ := haround.sound f hf
    refine ⟨kind, start, finish, hspans, hlt, lt_of_le_of_ne hle ?_⟩
    rintro rfl
    exact Block.isPlain_ne_terminator hplain kind.block
      (Option.some.inj (hm.symm.trans hspans.getElem_finish))
  · rintro ⟨kind, start, finish, hspans, hlt, hle⟩ rfl
    obtain ⟨f, hf, -⟩ := haround.complete kind start finish hspans hlt hle.le
    cases hf

namespace Setup

/-- The setup of a run of a graph, at the top or called. -/
def OfGraph (s : Setup) (g : Graph) : Prop :=
  ∃ settings run functionScope room cancelAfter,
    s = Library.setupFor settings run g.instructions functionScope room cancelAfter

/-- A run of a function that succeeds, though one of its returns stands inside of a loop. -/
structure ReturnsInLoop (s : Setup) (c : Context) : Prop where
  functionScope : s.functionScope = true
  success : (s.runFrom c).success = true
  returns : ∃ k i m v source, s.Returns c k i m v source ∧ Block.InLoop s.program.marks m.pc

section Graph

variable {g : Graph} (hs : s.OfGraph g) (hg : g.blockProblems = []) (hc : s.Begins c)

include hs

theorem OfGraph.caller : ∃ run, s.caller = Library.asCaller run := by
  obtain ⟨_, run, _, _, _, rfl⟩ := hs
  exact ⟨run, rfl⟩

theorem OfGraph.marks_length : s.program.marks.length = s.program.size := by
  obtain ⟨_, _, _, _, _, rfl⟩ := hs
  simp [Library.setupFor, Program.ofInstructions, Program.size]

include hg hc

theorem Takes.tracks (ht : s.Takes n { context := c } m) :
    m.context.loops.Tracks s.program.marks m.pc := by
  obtain ⟨settings, run, functionScope, room, cancelAfter, rfl⟩ := hs
  exact (takes_sound (Graph.nested_of_blockProblems hg) rfl hc ht).1.tracks

/-- Behind the last instruction no loop is in progress. -/
theorem Takes.loops_eq_nil (ht : s.Takes n { context := c } m)
    (hend : s.program.instructions[m.pc]? = none) : m.context.loops = [] := by
  refine (ht.tracks hs hg hc).eq_nil ?_
  rw [hs.marks_length]
  simpa [Program.size] using hend

theorem Returns.ne_nil_iff_inLoop (h : s.Returns c k i m v source) :
    m.context.loops ≠ [] ↔ Block.InLoop s.program.marks m.pc := by
  have hmark : s.program.marks[m.pc]? = some (some .giveBack) := by
    obtain ⟨settings, run, functionScope, room, cancelAfter, rfl⟩ := hs
    rw [← h.control]
    exact control_of_getElem? h.instruction
  exact (h.takes.tracks hs hg hc).ne_nil_iff_inLoop hmark rfl

theorem returnsInLoop_of_dangling
    (h : ∃ d ∈ (s.runFrom c).context.diagnostics, d.IsDangling) : s.ReturnsInLoop c := by
  obtain ⟨run, hcaller⟩ := hs.caller
  obtain ⟨n, m₁, hn, ht, hend⟩ := @steps_cases s s.settings.maxIterations { context := c }
  have hquiet := ht.quiet hcaller hc
  obtain ⟨hi, hsteps⟩ | ⟨-, -, hsteps⟩ | ⟨i, m', ending, hi, hstep, hsteps⟩ := hend
  · simp only [runFrom, hsteps, dangling_conclude_iff hquiet] at h
    exact absurd (ht.loops_eq_nil hs hg hc hi) h.2
  · simp [runFrom, hsteps, dangling_conclude_iff hquiet] at h
  · have hquiet' : m'.context.Quiet := by simpa [hstep] using step_quiet hcaller hquiet i
    simp only [runFrom, hsteps, dangling_conclude_iff hquiet'] at h
    obtain ⟨hending, hloops⟩ := h
    obtain ⟨rfl, rfl, hreturned, hscope⟩ | rfl := step_halts hstep
    swap
    · simp at hending
    -- The slot was empty before the last step that went on, so that step was the return.
    cases n with
    | zero =>
      cases ht
      simp [hc.returned] at hreturned
    | succ k =>
      obtain ⟨m, j, ht, hj, hlast⟩ := ht.last
      have hempty := step_unreturned hscope hlast
      have hfull : (s.step j m).1.context.returned ≠ none := by
        rw [hlast]
        exact Option.isSome_iff_ne_none.1 hreturned
      obtain ⟨v, source, hreturns⟩ := returns_of_filled hcaller ht hn hj hempty hfull
      obtain ⟨m₂, hstep₂, -, hsame, -⟩ := hreturns.step_loops
      obtain rfl := (Prod.mk.inj (hlast.symm.trans hstep₂)).1
      refine ⟨hscope, ?_, k, j, m, v, source, hreturns, ?_⟩
      · simp only [runFrom, hsteps, conclude_success (Or.inr rfl)]
        simp [hloops]
      · rw [← hreturns.ne_nil_iff_inLoop hs hg hc, ← hsame]
        exact hloops

theorem ReturnsInLoop.dangling (h : s.ReturnsInLoop c) :
    ∃ d ∈ (s.runFrom c).context.diagnostics, d.IsDangling := by
  obtain ⟨run, hcaller⟩ := hs.caller
  obtain ⟨k, i, m, v, source, hreturns, hin⟩ := h.returns
  obtain ⟨m', hstep, hpc, hsame, hreturned⟩ := hreturns.step_loops
  have hloops : m'.context.loops ≠ [] := by
    rw [hsame]
    exact (hreturns.ne_nil_iff_inLoop hs hg hc).2 hin
  have ht : s.Takes (k + 1) { context := c } m' :=
    hreturns.takes.trans (.one hreturns.instruction hstep)
  -- The end of the loop is still to come, so there is a next step.
  obtain ⟨j, hj⟩ : ∃ j, s.program.instructions[m'.pc]? = some j := by
    obtain ⟨kind, start, finish, hspans, -, hlt⟩ := hin
    have hfinish := hspans.finish_lt
    rw [hs.marks_length] at hfinish
    exact ⟨_, Array.getElem?_eq_getElem (by unfold Program.size at hfinish; omega)⟩
  have hwithin := ht.lt_of_not_exhausted hj fun hexhausted => by
    have hsuccess := h.success
    simp [runFrom, hexhausted, conclude] at hsuccess
  have hgoing : s.isCancelled m' = false := by
    by_contra hcancel
    have hnext := s.step_apply j m'
    rw [if_pos (by simpa using hcancel)] at hnext
    have hsuccess := h.success
    simp [runFrom, ht.steps_halt hwithin hj hnext, conclude] at hsuccess
  have hnext : s.step j m' = (visit j m', some .returned) := by
    simp [step_apply, hgoing, hreturned, h.functionScope]
  have hquiet := ht.quiet hcaller hc
  have hvisit : (visit j m').context.Quiet := hquiet
  simp only [runFrom, ht.steps_halt hwithin hj hnext]
  exact (dangling_conclude_iff hvisit).2 ⟨Or.inr rfl, hloops⟩

end Graph

/-- Take a graph whose blocks pass the check. A run of it, at the top or called, shows the line about
loops in progress just when it is a function that succeeds with a return inside of a loop. So a run
of a file never shows it. -/
theorem dangling_iff_returns_in_loop {g : Graph} (hg : g.blockProblems = []) :
    (∀ (s : Setup) (c : Context), s.OfGraph g → s.Begins c →
      ((∃ d ∈ (s.runFrom c).context.diagnostics, d.IsDangling) ↔ s.ReturnsInLoop c)) ∧
    ∀ (l : Library) (depth room : Nat) (key : String) (args : List Value) (heap : Heap)
      (notices : Array Diagnostic) (r : RunResult), l.resolve heap key = .ok g →
      l.runFunction depth room key args heap notices = .ok r →
      ∃ (s : Setup) (c : Context), s.OfGraph g ∧ s.Begins c ∧ r = s.runFrom c ∧
        ((∃ d ∈ r.context.diagnostics, d.IsDangling) ↔ s.ReturnsInLoop c) := by
  have hruns : ∀ (s : Setup) (c : Context), s.OfGraph g → s.Begins c →
      ((∃ d ∈ (s.runFrom c).context.diagnostics, d.IsDangling) ↔ s.ReturnsInLoop c) :=
    fun s c hs hc => ⟨returnsInLoop_of_dangling hs hg hc, ReturnsInLoop.dangling hs hg hc⟩
  refine ⟨hruns, fun l depth room key args heap notices r hresolve hr => ?_⟩
  rw [Library.runFunction_of_resolve hresolve] at hr
  split at hr
  · cases hr
  · split at hr
    · cases hr
    · cases hr
      have hs : (l.calleeSetup (depth - 1) room g).OfGraph g := ⟨_, _, _, _, _, rfl⟩
      have hc := begins_bindParameters (l.calleeSetup (depth - 1) room g)
        (g.parameters.getD []) args heap notices
      exact ⟨_, _, hs, hc, rfl, hruns _ _ hs hc⟩

/-- A loop that is left by a return in its first pass. -/
def earlyReturn : Graph where
  instructions :=
    [{ tag := "forNumeric",
       config := .ofList [("startValue", .text "1"), ("endValue", .text "5")] },
     { tag := "return", config := .ofList [("returnValue", .text "7")] },
     { tag := "endFor" }]

def earlyReturnSetup (functionScope : Bool) : Setup :=
  Library.setupFor {} (fun _ key _ _ _ => .error (.call (.noLookup key)))
    earlyReturn.instructions functionScope

theorem earlyReturn_begins (functionScope : Bool) :
    (earlyReturnSetup functionScope).Begins ((earlyReturnSetup functionScope).start {} #[]) :=
  begins_bindParameters (earlyReturnSetup functionScope) [] [] {} #[]

/-- In a function the run shows the line, and nothing else. -/
theorem earlyReturn_lines :
    ((earlyReturnSetup true).runFrom
        ((earlyReturnSetup true).start {} #[])).context.diagnostics.toList.map Diagnostic.line =
      [Diagnostic.danglingLine "forNumeric started at index 0"] := by
  decide +kernel

theorem earlyReturn_dangling : ∃ d ∈ ((earlyReturnSetup true).runFrom
    ((earlyReturnSetup true).start {} #[])).context.diagnostics, d.IsDangling := by
  have hmem : Diagnostic.danglingLine "forNumeric started at index 0" ∈
      ((earlyReturnSetup true).runFrom
        ((earlyReturnSetup true).start {} #[])).context.diagnostics.toList.map Diagnostic.line := by
    rw [earlyReturn_lines]
    exact List.mem_singleton_self _
  obtain ⟨d, hd, hline⟩ := List.mem_map.1 hmem
  exact ⟨d, Array.mem_toList_iff.1 hd, _, hline⟩

/-- The return inside of the loop is why the function shows the line; the same instructions as a
file do not. -/
theorem earlyReturn_returns_in_loop :
    earlyReturn.blockProblems = [] ∧
    (earlyReturnSetup true).ReturnsInLoop ((earlyReturnSetup true).start {} #[]) ∧
    ¬ ∃ d ∈ ((earlyReturnSetup false).runFrom
      ((earlyReturnSetup false).start {} #[])).context.diagnostics, d.IsDangling := by
  have hg : earlyReturn.blockProblems = [] := by decide +kernel
  have hgraph (functionScope : Bool) : (earlyReturnSetup functionScope).OfGraph earlyReturn :=
    ⟨_, _, _, _, _, rfl⟩
  have hiff (functionScope : Bool) := (dangling_iff_returns_in_loop hg).1
    (earlyReturnSetup functionScope) ((earlyReturnSetup functionScope).start {} #[])
    (hgraph functionScope) (earlyReturn_begins functionScope)
  refine ⟨hg, (hiff true).1 earlyReturn_dangling, fun h => ?_⟩
  cases ((hiff false).1 h).functionScope

/-- The blocks of a graph pass the check, and yet a successful run of it shows the line. -/
theorem earlyReturn_checked_dangling :
    earlyReturn.blockProblems = [] ∧
    (earlyReturnSetup true).OfGraph earlyReturn ∧
    (earlyReturnSetup true).Begins ((earlyReturnSetup true).start {} #[]) ∧
    ((earlyReturnSetup true).runFrom ((earlyReturnSetup true).start {} #[])).success = true ∧
    ∃ d ∈ ((earlyReturnSetup true).runFrom
      ((earlyReturnSetup true).start {} #[])).context.diagnostics, d.IsDangling :=
  ⟨by decide +kernel, ⟨_, _, _, _, _, rfl⟩, earlyReturn_begins true, by decide +kernel,
    earlyReturn_dangling⟩

end Setup

end NodeScript
