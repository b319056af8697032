import NodeScript.Proofs.CallStack
import NodeScript.Proofs.Isolation
import NodeScript.Proofs.Limits.Instructions
import NodeScript.Proofs.Realms.Evaluation

/-!
Leaves leave control alone. Whatever a leaf is configured with and whatever the run holds, evaluating
it changes at most one variable and at most one table, adds to the log and warns. Where the run
stands, its loops, a break, its return value and the calls that it is under stay as they are, and the
run goes on behind the leaf.
-/

namespace NodeScript

variable {c c' : Context} {i : Instruction} {name? : Option String} {table? : Option Address}

/-! ### Small changes -/

namespace Context

/-- From one context to another nothing has changed but the variable and the table that are named, if
they are; new tables, entries of the log and warnings may have come up. -/
structure Amends (name? : Option String) (table? : Option Address) (c c' : Context) : Prop where
  loops : c'.loops = c.loops
  breakRequested : c'.breakRequested = c.breakRequested
  returned : c'.returned = c.returned
  position : c'.position = c.position
  label : c'.label = c.label
  room : c'.room = c.room
  bindings : ∀ name, name? ≠ some name → c'.bindings.get? name = c.bindings.get? name
  size_le : c.heap.size ≤ c'.heap.size
  tables : ∀ a < c.heap.size, table? ≠ some a → c'.heap.get a = c.heap.get a
  results : c.results.toList <+: c'.results.toList
  reports : ∃ ds : List Diagnostic, (∀ d ∈ ds, d.severity = .warning) ∧
    c'.diagnostics.toList = c.diagnostics.toList ++ ds ∧ c'.notices.toList = c.notices.toList ++ ds

/-- At most one variable and at most one table have changed. -/
def AmendsOnce (c c' : Context) : Prop :=
  ∃ name? table?, c.Amends name? table? c'

namespace Amends

theorem refl (c : Context) : c.Amends none none c where
  loops := rfl
  breakRequested := rfl
  returned := rfl
  position := rfl
  label := rfl
  room := rfl
  bindings _ _ := rfl
  size_le := Nat.le_refl _
  tables _ _ _ := rfl
  results := List.prefix_rfl
  reports := ⟨[], nofun, by simp, by simp⟩

variable (h : c.Amends name? table? c')

include h

theorem warn (message : String) : c.Amends name? table? (c'.warn message) := by
  obtain ⟨ds, hds, hdiagnostics, hnotices⟩ := h.reports
  refine { h with reports := ⟨ds ++ [c'.warning message], ?_, ?_, ?_⟩ }
  · exact List.forall_mem_append.2 ⟨hds, List.forall_mem_singleton.2 rfl⟩
  · simp [Context.warn, Context.report, hdiagnostics]
  · simp [Context.warn, Context.report, hnotices]

theorem addRecord (r : Record) : c.Amends name? table? (c'.addRecord r) := by
  refine { h with results := h.results.trans ?_ }
  simp [Context.addRecord, Context.addEntry]

omit h in
theorem bind (h : c.Amends none table? c') (name : String) (v : Value) :
    c.Amends (some name) table? (c'.bind name v) := by
  refine { h with bindings := fun other hne => ?_ }
  have hother : other ≠ name := fun heq => hne (by rw [heq])
  rw [← h.bindings other nofun]
  exact Dict.get?_insert_of_ne hother v c'.bindings

omit h in
theorem write (h : c.Amends name? none c') (a : Address) (t : Table) :
    c.Amends name? (some a) { c' with heap := c'.heap.set a t } := by
  refine { h with
    size_le := h.size_le.trans (c'.heap.grows_set a t).size_le
    tables := fun b hb hne => ?_ }
  have hab : a ≠ b := fun heq => hne (by rw [heq])
  rw [← h.tables b hb nofun]
  simp [Heap.get, Heap.set, Array.getD_eq_getD_getElem?, hab]

omit h in
/-- An evaluation adds tables and warns. -/
theorem adopt {d : Draft} (hd : c.heap.Extends d.heap) :
    c.Amends none none (Context.adopt { c with heap := {} } d) := by
  have hheap : c.Amends none none { c with heap := d.heap } :=
    { refl c with size_le := hd.size_le, tables := fun a ha _ => hd.kept a ha }
  rw [Context.adopt, ← Array.foldl_toList]
  change c.Amends none none (d.warnings.toList.foldl _ { c with heap := d.heap })
  generalize { c with heap := d.heap } = c' at hheap
  induction d.warnings.toList generalizing c' with
  | nil => exact hheap
  | cons w ws ih => exact ih _ (hheap.warn w)

omit h in
/-- An effect sets at most one variable and writes at most one table. -/
theorem commit (h : c.Amends none none c') (e : Effect) : c.AmendsOnce (c'.commit e) := by
  obtain ⟨binding, write, entry, output⟩ := e
  obtain ⟨name?, hbinding⟩ :
      ∃ name?, c.Amends name? none (c'.commit ⟨binding, none, none, output⟩) := by
    cases binding with
    | none => exact ⟨none, h⟩
    | some b => exact ⟨some b.1, h.bind b.1 b.2⟩
  obtain ⟨table?, hwrite⟩ :
      ∃ table?, c.Amends name? table? (c'.commit ⟨binding, write, none, output⟩) := by
    cases write with
    | none => exact ⟨none, hbinding⟩
    | some w => exact ⟨some w.1, hbinding.write w.1 w.2⟩
  refine ⟨name?, table?, ?_⟩
  cases entry with
  | none => exact hwrite
  | some r => exact hwrite.addRecord r

end Amends

end Context

/-! ### Leaves -/

/-- The heaps that have all the tables of a given one as they are, with any values. -/
def Realm.later (h : Heap) : Realm where
  heap := h.Extends
  value _ := True
  plain _ := trivial
  inside _ _ _ _ := trivial
  alloc {g} {t} hg _ := ⟨hg.trans (g.extends_alloc t), trivial⟩
  mark {g} n hg := hg.trans (g.extends_mark n)
  store {g} t hg := ⟨hg.trans (g.extends_build t []), trivial⟩

/-- Until its effect is carried out, a leaf changes no table that is there. -/
theorem Leaf.amends_evaluate (l : Leaf) (c : Context) :
    c.Amends none none ((Exec.evaluate l.eval).after c) := by
  have hkeeps : (Realm.later c.heap).Acts (l.eval c.scope) :=
    Realm.acts_leaf (fun _ _ _ => trivial) fun _ _ => trivial
  have hr := hkeeps { heap := c.heap, room := c.room } (.refl c.heap)
  rw [Exec.after, Context.evaluate_apply]
  generalize l.eval c.scope { heap := c.heap, room := c.room } = r at hr
  cases r with
  | ok effect d => exact .adopt hr.1
  | error f d => exact .adopt hr

theorem Leaf.amendsOnce_run (l : Leaf) (start : String) (caller : Caller) (c : Context) :
    c.AmendsOnce (((Handler.leaf l).run start caller).after c) := by
  have hevaluate := l.amends_evaluate c
  rw [Exec.after] at hevaluate ⊢
  rw [Handler.run_leaf]
  generalize Exec.evaluate l.eval c = r at hevaluate
  cases r with
  | ok effect c' => exact hevaluate.commit effect
  | error f c' => exact ⟨none, none, hevaluate⟩

/-- No leaf has the type of a control instruction. -/
theorem LeafKind.control_tag (kind : LeafKind) : Control.ofTag? kind.tag = none := by
  cases kind <;> decide +kernel

namespace Instruction

theorem control_eq_none_of_leaf
    (hleaf : (∃ kind : LeafKind, i.tag = kind.tag) ∨ Setup.isUnknown i = true) :
    i.control = none := by
  obtain ⟨kind, hkind⟩ | hunknown := hleaf
  · rw [control, hkind]
    exact kind.control_tag
  · exact Option.isNone_iff_eq_none.1 (Bool.and_eq_true_iff.1 hunknown).1

variable (hi : i.control = none)

include hi

/-- An instruction that is no control instruction is a leaf, or does nothing. -/
theorem leaf_of_control_eq_none {kind : HandlerKind} (hk : HandlerKind.ofTag? i.tag = some kind) :
    ∃ leaf, kind = .leaf leaf := by
  obtain ⟨-, hleaf⟩ | ⟨control, hcontrol, -⟩ := control_of_kind hk
  · exact hleaf
  · simp [hi] at hcontrol

theorem amendsOnce_evaluate (start : String) (caller : Caller) (c : Context) :
    c.AmendsOnce ((i.evaluate start caller).after c) := by
  unfold Exec.after
  cases hk : HandlerKind.ofTag? i.tag with
  | none =>
    simp only [evaluate, hk]
    exact ⟨none, none, .refl c⟩
  | some kind =>
    obtain ⟨leaf, rfl⟩ := leaf_of_control_eq_none hi hk
    rw [evaluate_of_kind hk]
    cases hd : Handler.decoder c.heap (.leaf leaf) i.config.get? with
    | invalid problems => exact ⟨none, none, ((Context.Amends.refl c).warn _).addRecord _⟩
    | valid handler =>
      obtain ⟨l, -, rfl⟩ := Checked.exists_of_map hd
      exact l.amendsOnce_run start caller c

end Instruction

theorem Context.AmendsOnce.logged (h : c.AmendsOnce c') (i : Instruction) (reply : Reply) :
    c.AmendsOnce (Setup.logged i reply c') := by
  obtain ⟨name?, table?, h⟩ := h
  cases reply with
  | record output => exact ⟨name?, table?, h.addRecord _⟩
  | _ => exact ⟨name?, table?, h⟩

/-! ### Steps -/

namespace Setup

variable {s : Setup} {m : Machine}

/-- A step at a leaf goes on behind it, unless its evaluation fails. -/
theorem step_leaf (hi : i.control = none) (hready : s.Ready m) :
    match i.evaluate s.settings.functionPrefix s.caller (visit i m).context with
    | .ok _ _ => ∃ m', s.step i m = (m', none) ∧ m'.pc = m.pc + 1 ∧
        (visit i m).context.AmendsOnce m'.context
    | .error f c' => s.step i m =
        ({ visit i m with context := s.fail f.kind (f.report i.displayName m.pc) (some m.pc) c' },
          some .failed) := by
  have hamends := Instruction.amendsOnce_evaluate hi s.settings.functionPrefix s.caller
    (visit i m).context
  have hperform := s.perform_apply m.pc i (visit i m).context
  rw [step_ready hready, dispatch, Exec.after] at *
  by_cases hunknown : isUnknown i = true
  · -- Nothing is evaluated; at the first visit there is a warning.
    have hkind : HandlerKind.ofTag? i.tag = none := by
      simpa [isUnknown, hi] using hunknown
    simp only [Instruction.evaluate, hkind]
    refine ⟨_, if_pos hunknown, ?_, ?_⟩
    · unfold passUnknown
      split <;> rfl
    · unfold passUnknown
      split
      · exact ⟨none, none, (Context.Amends.refl _).warn _⟩
      · exact ⟨none, none, .refl _⟩
  · rw [if_neg hunknown]
    rw [hi] at hperform
    generalize i.evaluate s.settings.functionPrefix s.caller (visit i m).context = r
      at hamends hperform
    have hpc : (visit i m).pc = m.pc := rfl
    dsimp only
    cases r with
    | ok reply c' =>
      simp only [hpc, hperform]
      exact ⟨_, rfl, rfl, hamends.logged i reply⟩
    | error f c' => simp only [hpc, hperform]

end Setup

namespace Library

variable {l : Library} {a : Activation} {callers : List Activation} {σ : CallState}

/-- At a leaf no call is made and none is returned from: the same run goes on, or it is over. -/
theorem move_leaf (hi : i.control = none) (ha : a.instruction? = some i)
    (h : l.move (.running a callers) = some σ) :
    (∃ m, σ = .running { a with machine := m } callers) ∨ ∃ r, σ = .answering (.ok r) callers := by
  obtain rfl := Option.some.inj h
  have hrequest : (a.setup l.settings unanswered).request? i a.machine = none := by
    simp [Setup.request?, hi]
  unfold advance
  simp only [ha, hrequest]
  split
  · exact .inr ⟨_, rfl⟩
  · rcases (a.setup l.settings unanswered).step i a.machine with ⟨m, _ | ending⟩
    · exact .inl ⟨m, rfl⟩
    · exact .inr ⟨_, rfl⟩

end Library

/-- Leaves never influence control. Let an instruction be of the type of a leaf, with any
configuration, or of a type that is unknown. Whatever the run is like, and also if its evaluation
fails, evaluating it changes at most one variable and at most one table, and adds nothing but warnings
to the reports. It depends on no graph that could be called. A step at it goes on behind it, unless
the evaluation fails, and among runs that call each other it neither begins nor ends a call. -/
theorem Instruction.leaf_leaves_control
    (hleaf : (∃ kind : LeafKind, i.tag = kind.tag) ∨ Setup.isUnknown i = true) :
    (∀ (start : String) (caller : Caller) (c : Context),
      c.AmendsOnce ((i.evaluate start caller).after c)) ∧
    (∀ start caller caller', i.evaluate start caller = i.evaluate start caller') ∧
    (∀ (s : Setup) (m : Machine), s.Ready m →
      match i.evaluate s.settings.functionPrefix s.caller (Setup.visit i m).context with
      | .ok _ _ => ∃ m', s.step i m = (m', none) ∧ m'.pc = m.pc + 1 ∧
          (Setup.visit i m).context.AmendsOnce m'.context
      | .error f c' => s.step i m =
          ({ Setup.visit i m with
             context := s.fail f.kind (f.report i.displayName m.pc) (some m.pc) c' },
            some .failed)) ∧
    ∀ (l : Library) (a : Activation) (callers : List Activation) (σ : CallState),
      a.instruction? = some i → l.move (.running a callers) = some σ →
        (∃ m, σ = .running { a with machine := m } callers) ∨
          ∃ r, σ = .answering (.ok r) callers := by
  have hi := control_eq_none_of_leaf hleaf
  refine ⟨amendsOnce_evaluate hi, evaluate_of_not_call (by simp [hi]), ?_, ?_⟩
  · intro s m hready
    exact Setup.step_leaf hi hready
  · intro l a callers σ ha h
    exact Library.move_leaf hi ha h

/-- Writes the first item of an array. -/
def writingFirst : Instruction where
  tag := "setTableValue"
  config := .ofList [("tableVariable", .text "t"), ("keyType", .text "number_literal"),
    ("keyValue", .int 1), ("valueSource", .text "7")]

/-- Two arrays, of which a variable holds the first. -/
def holdingFirst : Context where
  heap := { tables := #[.array [.nil], .array [.nil]] }
  bindings := .ofList [("t", .table 0)]

/-- It writes to one of two arrays; the other array and all that control depends on stay as they
are. -/
theorem writingFirst_leaves_control :
    writingFirst.tag = LeafKind.setTableValue.tag ∧
      (∀ caller, holdingFirst.AmendsOnce ((writingFirst.evaluate "" caller).after holdingFirst)) ∧
      ((writingFirst.evaluate "" (Library.asCaller Library.unanswered)).after
        holdingFirst).heap.tables.toList = [.array [.int 7], .array [.nil]] :=
  ⟨rfl, fun caller =>
    (Instruction.leaf_leaves_control (.inl ⟨.setTableValue, rfl⟩)).1 "" caller holdingFirst,
    by decide +kernel⟩

end NodeScript
