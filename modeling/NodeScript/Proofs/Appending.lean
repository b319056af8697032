import NodeScript.Proofs.Reporting

/-!
What a run only adds to. A relation between states that is kept by every change of the state in a
run is kept by steps and runs; so the log and the reports of a state are the beginning of those of
every later one.
-/

namespace NodeScript

variable {s : Setup} {run : Library.Runner} {i : Instruction} {m m' : Machine} {c : Context}
  {R : Context → Context → Prop}

/-- A relation that holds across every change of the state in a run, but for the report that the
limit of steps is reached. -/
structure Enduring (R : Context → Context → Prop) : Prop extends Tolerant R where
  loops (loops : LoopStack) (c : Context) : R c (c.withLoops loops)
  pending (b : Bool) (c : Context) : R c { c with breakRequested := b }
  returned (v : Value) (c : Context) (hc : c.returned = none) : R c { c with returned := some v }
  place (position : Option Int) (label : Option String) (c : Context) :
    R c { c with position, label }
  report (d : Diagnostic) (hd : d.kind ≠ .resource) (c : Context) : R c (c.report d)
  warn message c := report _ (by simp [Context.warning]) c

namespace Enduring

variable (hR : Enduring R)

include hR

theorem fail {kind : DiagnosticKind} (hkind : kind ≠ .resource) (message : String)
    (index : Option Nat) (c : Context) : R c (s.fail kind message index c) :=
  hR.report _ hkind c

theorem leaveLoop (m : Machine) : R m.context (s.leaveLoop m).1.context := by
  unfold Setup.leaveLoop
  split
  · next frame rest hl =>
    exact hR.trans (hR.loops rest m.context) (hR.pending false (m.context.withLoops rest))
  · exact hR.fail (by simp) _ _ _

theorem dispatch (hs : s.caller = Library.asCaller run) (i : Instruction) (m : Machine) :
    R m.context (s.dispatch i m).1.context := by
  unfold Setup.dispatch
  split
  · unfold Setup.passUnknown
    split
    · exact hR.warn _ _
    · exact hR.refl _
  · have hperform := Setup.perform_tolerant hR.toTolerant hR.loops (hR.pending true) hR.returned hs
      m.pc i m.context
    dsimp only
    cases hp : s.perform m.pc i m.context with
    | ok pc c' => simpa [Exec.after, hp] using hperform
    | error f c' =>
      rw [Exec.after, hp] at hperform
      refine hR.trans hperform (hR.fail ?_ _ _ _)
      obtain hkind | hkind := Setup.perform_kind hp <;> simp [hkind]

/-- A step keeps the relation, also one that ends the run. -/
theorem step (hs : s.caller = Library.asCaller run) (i : Instruction) (m : Machine) :
    R m.context (s.step i m).1.context := by
  have hvisit : R m.context (Setup.visit i m).context := hR.place _ _ _
  rw [Setup.step_apply]
  split
  · exact hR.fail (by simp) _ _ _
  · split
    · exact hvisit
    · split
      · exact hR.trans hvisit (hR.leaveLoop _)
      · exact hR.trans hvisit (hR.dispatch hs i _)

theorem steps (hs : s.caller = Library.asCaller run) (budget : Nat) (m : Machine) :
    R m.context (s.steps budget m).1.context := by
  induction budget generalizing m with
  | zero => exact hR.refl _
  | succ budget ih =>
    unfold Setup.steps
    cases s.program.instructions[m.pc]? with
    | none => exact hR.refl _
    | some i =>
      have hstep := hR.step hs i m
      dsimp only
      generalize s.step i m = r at hstep
      obtain ⟨m', _ | ending⟩ := r
      · exact hR.trans hstep (ih m')
      · exact hstep

theorem conclude {ending : Ending} (hending : ending ≠ .exhausted) (m : Machine) :
    R m.context (s.conclude m ending).2 := by
  cases ending with
  | exhausted => exact absurd rfl hending
  | failed => exact hR.refl _
  | finished | returned =>
    unfold Setup.conclude
    dsimp only
    split
    · split
      · exact hR.fail (by simp) _ _ _
      · exact hR.refl _
    · exact hR.trans (hR.place none m.context.label m.context) (hR.warn _ _)

end Enduring

/-- The log and the reports of a state are the beginning of those of another. -/
structure Context.Continues (c c' : Context) : Prop where
  results : c.results.toList <+: c'.results.toList
  diagnostics : c.diagnostics.toList <+: c'.diagnostics.toList

theorem Context.continues_report (d : Diagnostic) (c : Context) : c.Continues (c.report d) :=
  ⟨List.prefix_rfl, by simp [Context.report]⟩

theorem enduring_continues : Enduring Context.Continues where
  refl _ := ⟨List.prefix_rfl, List.prefix_rfl⟩
  trans h h' := ⟨h.results.trans h'.results, h.diagnostics.trans h'.diagnostics⟩
  addRecord r c := ⟨by simp [Context.addRecord, Context.addEntry], List.prefix_rfl⟩
  bind _ _ _ := ⟨List.prefix_rfl, List.prefix_rfl⟩
  share _ _ _ := ⟨List.prefix_rfl, List.prefix_rfl⟩
  loops _ _ := ⟨List.prefix_rfl, List.prefix_rfl⟩
  pending _ _ := ⟨List.prefix_rfl, List.prefix_rfl⟩
  returned _ _ _ := ⟨List.prefix_rfl, List.prefix_rfl⟩
  place _ _ _ := ⟨List.prefix_rfl, List.prefix_rfl⟩
  report d _ c := Context.continues_report d c

/-- The limit of steps has not been reported. -/
def Context.Unlimited (c : Context) : Prop :=
  ∀ d ∈ c.diagnostics, d.kind ≠ .resource

theorem enduring_unlimited : Enduring fun c c' => c.Unlimited → c'.Unlimited where
  refl _ := id
  trans h h' hc := h' (h hc)
  addRecord _ _ := id
  bind _ _ _ := id
  share _ _ _ := id
  loops _ _ := id
  pending _ _ := id
  returned _ _ _ := id
  place _ _ _ := id
  report d hd c hc e he := by
    obtain he | rfl := Array.mem_push.1 he
    · exact hc e he
    · exact hd

end NodeScript
