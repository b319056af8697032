import NodeScript.Display
import NodeScript.Proofs.CallTargets
import NodeScript.Proofs.Relocation.Runs

/-!
Running again. Runs share the tables that stand in configurations, so what one run writes there the
next one sees. This is the only way in which a run acts on later ones: if it leaves the tables that
were there before it as they were, then the next run differs from it only in where its own tables
lie, and its outcome is the same.
-/

namespace NodeScript

variable {ρ : Relocation} {h g : Heap}

/-! ### What a heap holds -/

/-- What mentions only tables of the heap and marks that it has given away. -/
def Number.Within (h : Heap) : Number → Prop
  | .nan m => m < h.nextMark
  | .int _ | .float _ => True

def Value.Within (h : Heap) : Value → Prop
  | .number n => n.Within h
  | .vector v => v.x.Within h ∧ v.y.Within h ∧ v.z.Within h
  | .table a => a < h.size
  | .nil | .bool _ | .text _ | .moment _ => True

def Table.Within (h : Heap) : Table → Prop
  | .array items => ∀ v ∈ items, v.Within h
  | .map d => ∀ e ∈ d.entries, e.1.value.Within h ∧ e.2.Within h

def Instruction.Within (h : Heap) (i : Instruction) : Prop :=
  ∀ e ∈ i.config.entries, e.2.Within h

def Graph.Within (h : Heap) (graph : Graph) : Prop :=
  ∀ i ∈ graph.instructions, i.Within h

/-- Function graphs that mention only what the heap holds: none, those of a store, or data. -/
inductive GraphLookup.Within (h : Heap) : Option GraphLookup → Prop
  | none : Within h none
  | store (s : Store) (hs : ∀ e ∈ s.graphs.entries, e.2.Within h) : Within h (some s.lookup)
  | data (v : Value) (hv : v.Within h) : Within h (some (.ofData v))

/-- The tables of a heap mention only what the heap holds. -/
structure Heap.Closed (h : Heap) : Prop where
  marks_pos : 0 < h.nextMark
  tables : ∀ a < h.size, (h.get a).Within h

/-- The tables of a heap are in a later one as they were. -/
def Heap.KeptBy (h g : Heap) : Prop :=
  ∀ a < h.size, g.get a = h.get a

instance (h : Heap) : (n : Number) → Decidable (n.Within h)
  | .nan m => inferInstanceAs (Decidable (m < h.nextMark))
  | .int _ | .float _ => .isTrue trivial

instance (h : Heap) : (v : Value) → Decidable (v.Within h)
  | .number n => inferInstanceAs (Decidable (n.Within h))
  | .vector v => inferInstanceAs (Decidable (v.x.Within h ∧ v.y.Within h ∧ v.z.Within h))
  | .table a => inferInstanceAs (Decidable (a < h.size))
  | .nil | .bool _ | .text _ | .moment _ => .isTrue trivial

instance (h : Heap) : (t : Table) → Decidable (t.Within h)
  | .array items => inferInstanceAs (Decidable (∀ v ∈ items, v.Within h))
  | .map d => inferInstanceAs (Decidable (∀ e ∈ d.entries, e.1.value.Within h ∧ e.2.Within h))

instance (h : Heap) (i : Instruction) : Decidable (i.Within h) :=
  inferInstanceAs (Decidable (∀ e ∈ i.config.entries, e.2.Within h))

instance (h g : Heap) : Decidable (h.KeptBy g) :=
  inferInstanceAs (Decidable (∀ a < h.size, g.get a = h.get a))

/-- A relocation that leaves in place what a heap holds. -/
structure Relocation.Past (ρ : Relocation) (h : Heap) : Prop where
  tables : ρ.tables = h.size
  marks : ρ.marks = h.nextMark

theorem Number.Within.move_eq (hρ : ρ.Past h) {n : Number} (hn : n.Within h) : n.move ρ = n := by
  cases n with
  | nan m =>
    have hm : m < ρ.marks := by rwa [hρ.marks]
    rw [Number.move, ρ.mark_of_lt hm]
  | _ => rfl

theorem Value.Within.move_eq (hρ : ρ.Past h) {v : Value} (hv : v.Within h) : v.move ρ = v := by
  cases v with
  | number n => exact congrArg Value.number (Number.Within.move_eq hρ hv)
  | vector v =>
    obtain ⟨hx, hy, hz⟩ := hv
    rw [Value.move, Vector3.move, hx.move_eq hρ, hy.move_eq hρ, hz.move_eq hρ]
  | table a =>
    have ha : a < ρ.tables := by rwa [hρ.tables]
    rw [Value.move_table, ρ.address_of_lt ha]
  | _ => rfl

theorem Value.map_move_eq (hρ : ρ.Past h) {vs : List Value} (hvs : ∀ v ∈ vs, v.Within h) :
    vs.map (Value.move ρ) = vs :=
  (List.map_congr_left fun v hv => (hvs v hv).move_eq hρ).trans vs.map_id'

theorem Table.Within.move_eq (hρ : ρ.Past h) {t : Table} (ht : t.Within h) : t.move ρ = t := by
  cases t with
  | array items => exact congrArg Table.array (Value.map_move_eq hρ ht)
  | map d =>
    have hentries : d.entries.map (fun e => (e.1.move ρ, e.2.move ρ)) = d.entries := by
      refine (List.map_congr_left fun e he => ?_).trans d.entries.map_id'
      obtain ⟨hk, hv⟩ := ht e he
      have hkey : e.1.move ρ = e.1 := by
        cases hk' : e.1 with
        | number n =>
          rw [hk'] at hk
          exact congrArg Key.number (Number.Within.move_eq hρ hk)
        | _ => rfl
      exact Prod.ext hkey (hv.move_eq hρ)
    exact congrArg (fun entries => Table.map ⟨entries⟩) hentries

theorem Instruction.map_move_eq (hρ : ρ.Past h) {instructions : List Instruction}
    (hi : ∀ i ∈ instructions, i.Within h) :
    instructions.map (Instruction.move ρ) = instructions := by
  refine (List.map_congr_left fun i hmem => ?_).trans instructions.map_id'
  have hentries : i.config.entries.map (fun e => (e.1, e.2.move ρ)) = i.config.entries := by
    refine (List.map_congr_left fun e he => ?_).trans i.config.entries.map_id'
    exact Prod.ext rfl ((hi i hmem e he).move_eq hρ)
  exact congrArg (fun entries => { i with config := ⟨entries⟩ }) hentries

theorem Graph.Within.move_eq (hρ : ρ.Past h) {graph : Graph} (hg : graph.Within h) :
    graph.move ρ = graph :=
  congrArg (fun instructions => { graph with instructions }) (Instruction.map_move_eq hρ hg)

/-! ### Later heaps -/

/-- A later heap, in which the tables of the first are as they were. -/
structure Heap.Extends (h g : Heap) : Prop where
  size_le : h.size ≤ g.size
  marks_le : h.nextMark ≤ g.nextMark
  kept : h.KeptBy g

theorem Heap.Extends.refl (h : Heap) : h.Extends h :=
  ⟨Nat.le_refl _, Nat.le_refl _, fun _ _ => rfl⟩

theorem Heap.Closed.exists_moved (hh : h.Closed) (hg : h.Extends g) :
    ∃ ρ : Relocation, ρ.Past h ∧ h.Moved ρ g := by
  let ρ : Relocation := ⟨h.size, g.size - h.size, h.nextMark, g.nextMark - h.nextMark, hh.marks_pos⟩
  have hρ : ρ.Past h := ⟨rfl, rfl⟩
  have hsize : g.size = h.size + ρ.tableOffset := (Nat.add_sub_of_le hg.size_le).symm
  refine ⟨ρ, hρ, Nat.le_refl _, hsize, Nat.le_refl _, (Nat.add_sub_of_le hg.marks_le).symm, ?_⟩
  intro a
  by_cases ha : a < h.size
  · rw [ρ.address_of_lt ha, hg.kept a ha, (hh.tables a ha).move_eq hρ]
  · have ha : h.size ≤ a := Nat.le_of_not_lt ha
    have hpast : g.size ≤ a + ρ.tableOffset := by omega
    rw [ρ.address_of_le ha, Heap.get_of_le ha, Heap.get_of_le hpast]
    rfl

/-- What is found in a relocated heap that holds the same. -/
theorem GraphLookup.Within.steady (hρ : ρ.Past h) {l : Library} (hl : Within h l.lookup) :
    l.Steady ρ := by
  obtain ⟨lookup, settings⟩ := l
  intro g g' key hm
  cases hl with
  | none => rfl
  | store s hs =>
    simp only [Library.resolve, Store.lookup, Store.get?]
    cases hget : s.graphs.get? key with
    | none => rfl
    | some graph =>
      have hgraph : graph.move ρ = graph := (hs _ (Store.mem_entries hget)).move_eq hρ
      simp only [Option.map_some, pure_bind]
      split
      · exact congrArg Except.ok hgraph.symm
      · rfl
  | data v hv =>
    have hmap := hm.map? v
    rw [hv.move_eq hρ] at hmap
    simp only [Library.resolve, GraphLookup.ofData, hmap]
    cases g.map? v with
    | none => rfl
    | some entries =>
      have hget : (entries.move ρ).get? (.text key) = _ := entries.get?_move (.text key)
      simp only [Option.map_some, Option.bind_some, hget]
      cases entries.get? (.text key) with
      | none => rfl
      | some v =>
        simp only [Option.map_some, Library.graphOfData_move hm]
        cases Library.graphOfData g key v with
        | error f => rfl
        | ok graph =>
          change (if graph.isCallable then _ else _) =
            Except.map _ (if graph.isCallable then _ else _)
          split <;> rfl

/-! ### Outcomes -/

theorem Tree.move_object (fields : List (String × Tree)) :
    (object fields).move ρ = object (fields.map fun (name, t) => (name, t.move ρ)) := by
  simp [object, move, moveEntries_eq_map, Function.comp_def]

theorem Diagnostic.tree_move (d : Diagnostic) : d.tree.move ρ = d.tree := by
  obtain ⟨kind, severity, message, index, label⟩ := d
  cases index <;> cases label <;> rfl

namespace Heap.Moved

variable {g' : Heap}

mutual

theorem fieldTree (hm : Heap.Moved ρ g g') (f : Field) :
    g'.fieldTree (f.move ρ) = (g.fieldTree f).move ρ := by
  cases f with
  | value v => exact hm.tree v
  | list vs =>
    simp [Heap.fieldTree, Field.move, Tree.move, Tree.moveList_eq_map, hm.tree, Function.comp_def]
  | map entries =>
    simp [Heap.fieldTree, Field.move, Tree.move_object, hm.tree, Function.comp_def]
  | record fields => exact congrArg Tree.map (fieldTrees hm fields)
  | diagnostics ds =>
    simp [Heap.fieldTree, Field.move, Tree.move, Tree.moveList_eq_map, Diagnostic.tree_move,
      Function.comp_def]
termination_by structural f

theorem fieldTrees (hm : Heap.Moved ρ g g') (fs : Record) :
    g'.fieldTrees (Field.moveAll ρ fs) = Tree.moveEntries ρ (g.fieldTrees fs) := by
  match fs with
  | [] => rfl
  | (name, f) :: fs =>
    simp [Heap.fieldTrees, Tree.moveEntries, fieldTree hm f, fieldTrees hm fs]
termination_by structural fs

end

theorem entryTree (hm : Heap.Moved ρ g g') (e : Entry) :
    g'.entryTree (e.move ρ) = (g.entryTree e).move ρ := by
  cases e with
  | record r => exact hm.fieldTree (.record r)
  | value v => exact hm.tree v

end Heap.Moved

theorem RunResult.Moved.resultTree {r r' : RunResult} (hr : r.Moved ρ r') :
    Display.resultTree r' = (Display.resultTree r).move ρ := by
  have hc := hr.context
  have hsteps : (Tree.int r.iterations).move ρ = .int r.iterations := rfl
  simp [Display.resultTree, Tree.move_object, Tree.move, Tree.moveList_eq_map, hr.success,
    hr.iterations, hr.returnValue, hc.results, hc.bindings, hc.returned, hc.diagnostics,
    hc.heap.entryTree, hc.heap.tree, hsteps, Diagnostic.tree_move, Function.comp_def]

/-- The same outcome: success, steps and diagnostics, and the log, the variables and the return
value as they stand at the end, up to the marks by which values that are no numbers are told
apart. -/
structure RunResult.Same (r r' : RunResult) : Prop where
  success : r'.success = r.success
  iterations : r'.iterations = r.iterations
  diagnostics : r'.context.diagnostics = r.context.diagnostics
  shown : ∃ ρ, Display.resultTree r' = (Display.resultTree r).move ρ

theorem RunResult.Moved.same {r r' : RunResult} (hr : r.Moved ρ r') : r.Same r' :=
  ⟨hr.success, hr.iterations, hr.context.diagnostics, ρ, hr.resultTree⟩

/-- The same fault, or the same outcome. -/
inductive SameOutcome : Except Fault RunResult → Except Fault RunResult → Prop
  | ok {r r' : RunResult} (h : r.Same r') : SameOutcome (.ok r) (.ok r')
  | error (f : Fault) : SameOutcome (.error f) (.error f)

/-! ### Running again -/

theorem Setup.runNamed_apply (s : Setup) (names args : List Value) (c : Context) :
    s.runNamed names args c =
      match Context.bindNamed names args c with
      | .ok _ d => .ok (s.runFrom d) d
      | .error f d => .error f d := by
  simp only [runNamed, bind, EStateM.bind]
  cases Context.bindNamed names args c <;> rfl

/-- Binding parameters makes no tables. -/
theorem Context.heap_of_setVariableNamed {c : Context} {name v : Value} {r : Bool × Context}
    (hr : c.setVariableNamed name v = .ok r) : r.2.heap = c.heap := by
  unfold setVariableNamed at hr
  split at hr
  · cases hr
    dsimp only [setVariable]
    split <;> rfl
  · cases hd : c.heap.display c.room name with
    | error f =>
      rw [hd] at hr
      cases hr
    | ok shown =>
      rw [hd] at hr
      cases hr
      rfl

theorem Context.heap_of_bindNamed_error {names args : List Value} {c d : Context} {f : Fault}
    (hf : bindNamed names args c = .error f d) : d.heap = c.heap := by
  induction names generalizing args c with
  | nil => cases hf
  | cons name names ih =>
    simp only [bindNamed, Bind.bind, EStateM.bind, get, getThe, MonadStateOf.get, EStateM.get] at hf
    cases hn : c.setVariableNamed name (args.head?.getD .nil) with
    | error e =>
      rw [hn] at hf
      cases hf
      rfl
    | ok r =>
      rw [hn] at hf
      exact (ih hf).trans (heap_of_setVariableNamed hn)

theorem Setup.heap_of_runNamed_error {s : Setup} {names args : List Value} {c d : Context}
    {f : Fault} (hf : s.runNamed names args c = .error f d) : d.heap = c.heap := by
  rw [runNamed_apply] at hf
  cases hb : Context.bindNamed names args c with
  | ok u b =>
    rw [hb] at hf
    cases hf
  | error e b =>
    rw [hb] at hf
    cases hf
    exact Context.heap_of_bindNamed_error hb

/-- What a host is told by two runs of which the second mimics the first. -/
theorem Setup.Moved.runNamed {s s' : Setup} (hs : s.Moved ρ s') {c c' : Context}
    (hc : c.Moved ρ c') (names args : List Value) :
    (∃ f d d', s.runNamed names args c = .error f d ∧
      s'.runNamed (names.map (Value.move ρ)) (args.map (Value.move ρ)) c' = .error f d') ∨
    ∃ r r' d d', s.runNamed names args c = .ok r d ∧
      s'.runNamed (names.map (Value.move ρ)) (args.map (Value.move ρ)) c' = .ok r' d' ∧
      r.Moved ρ r' := by
  have hbound := Context.mimics_bindNamed names args c c' hc
  rw [runNamed_apply, runNamed_apply]
  generalize Context.bindNamed names args c = b,
    Context.bindNamed (names.map (Value.move ρ)) (args.map (Value.move ρ)) c' = b' at hbound
  cases hbound with
  | error f hd => exact .inl ⟨f, _, _, rfl, rfl⟩
  | ok u hd => exact .inr ⟨_, _, _, _, rfl, rfl, hs.runFrom hd⟩

namespace Library

variable {l : Library} {instructions : List Instruction} {names args : List Value}

/-- A run that is relocated past what its program mentions is a run of the same program. -/
theorem moved_setup (hρ : ρ.Past h) (hl : GraphLookup.Within h l.lookup)
    (hi : ∀ i ∈ instructions, i.Within h) (functionScope : Bool) :
    (l.setup instructions functionScope).Moved ρ (l.setup instructions functionScope) := by
  have hrun := (hl.steady hρ).mimics_runFunction l.settings.maxCallDepth
  have hs := moved_setupFor hrun l.settings instructions functionScope nestingLimit none
  rwa [Instruction.map_move_eq hρ hi] at hs

/-- From a later heap a program runs as it does from the first. -/
theorem runNamed_extends (hh : h.Closed) (hg : h.Extends g) (hl : GraphLookup.Within h l.lookup)
    (hi : ∀ i ∈ instructions, i.Within h) (hnames : ∀ v ∈ names, v.Within h)
    (hargs : ∀ v ∈ args, v.Within h) (functionScope : Bool) (notices notices' : Array Diagnostic) :
    let s := l.setup instructions functionScope
    (∃ f d d', s.runNamed names args (s.start h notices) = .error f d ∧
      s.runNamed names args (s.start g notices') = .error f d') ∨
    ∃ r r' d d', s.runNamed names args (s.start h notices) = .ok r d ∧
      s.runNamed names args (s.start g notices') = .ok r' d' ∧
      ∃ ρ : Relocation, ρ.Past h ∧ r.Moved ρ r' := by
  intro s
  obtain ⟨ρ, hρ, hm⟩ := hh.exists_moved hg
  have hs : s.Moved ρ s := moved_setup hρ hl hi functionScope
  have hrun := hs.runNamed (hs.start hm notices notices') names args
  rw [Value.map_move_eq hρ hnames, Value.map_move_eq hρ hargs] at hrun
  obtain hfault | ⟨r, r', d, d', hr, hr', hmoved⟩ := hrun
  · exact .inl hfault
  · exact .inr ⟨r, r', d, d', hr, hr', ρ, hρ, hmoved⟩

/-- From a later heap a function is called as it is from the first. -/
theorem runFunction_extends (hh : h.Closed) (hg : h.Extends g)
    (hl : GraphLookup.Within h l.lookup) (hargs : ∀ v ∈ args, v.Within h) (depth room : Nat)
    (key : String) (notices notices' : Array Diagnostic) :
    SameOutcome (l.runFunction depth room key args h notices)
      (l.runFunction depth room key args g notices') := by
  obtain ⟨ρ, hρ, hm⟩ := hh.exists_moved hg
  have hrun := (hl.steady hρ).mimics_runFunction depth room key args h g notices notices' hm
  rw [Value.map_move_eq hρ hargs] at hrun
  generalize l.runFunction depth room key args h notices = x,
    l.runFunction depth room key args g notices' = y at hrun
  cases hrun with
  | ok hr => exact .ok hr.same
  | error f => exact .error f

/-- A run makes tables and gives marks away; it takes none back. -/
theorem runNamed_grows (hh : h.Closed) (hl : GraphLookup.Within h l.lookup)
    (hi : ∀ i ∈ instructions, i.Within h) (hnames : ∀ v ∈ names, v.Within h)
    (hargs : ∀ v ∈ args, v.Within h) {functionScope : Bool} {notices : Array Diagnostic}
    {r : RunResult} {c : Context}
    (hrun : (l.setup instructions functionScope).runNamed names args
      ((l.setup instructions functionScope).start h notices) = .ok r c) :
    h.size ≤ r.context.heap.size ∧ h.nextMark ≤ r.context.heap.nextMark := by
  obtain ⟨f, d, d', hf, -⟩ | ⟨r₁, r₂, d, d', hr, -, ρ, hρ, hmoved⟩ :=
    runNamed_extends hh (.refl h) hl hi hnames hargs functionScope notices notices
  · rw [hf] at hrun
    cases hrun
  · rw [hr] at hrun
    cases hrun
    exact ⟨hρ.tables ▸ hmoved.context.heap.tables_le, hρ.marks ▸ hmoved.context.heap.marks_le⟩

/-- The tables of the first heap are kept by a run that mimics one which keeps them. -/
theorem keptBy_of_moved (hh : h.Closed) (hρ : ρ.Past h) {r r' : RunResult} (hr : r.Moved ρ r')
    (hkept : h.KeptBy r.context.heap) : h.KeptBy r'.context.heap := by
  intro a ha
  have hget := hr.context.heap.get_eq a
  rwa [ρ.address_of_lt (hρ.tables ▸ ha), hkept a ha, (hh.tables a ha).move_eq hρ] at hget

/-- Running a program again, and calling a function after it ran, gives the same as before, unless
the run changed a table that was there before it. A host that is told a fault before the first step
is told the same one again. -/
theorem rerun_same_unless_written (l : Library) (instructions : List Instruction)
    (functionScope : Bool) (names args : List Value) (notices notices' : Array Diagnostic)
    (hh : h.Closed) (hl : GraphLookup.Within h l.lookup) (hi : ∀ i ∈ instructions, i.Within h)
    (hnames : ∀ v ∈ names, v.Within h) (hargs : ∀ v ∈ args, v.Within h) :
    let s := l.setup instructions functionScope
    (∀ f c, s.runNamed names args (s.start h notices) = .error f c →
      ∃ c', s.runNamed names args (s.start c.heap notices') = .error f c') ∧
    ∀ r c, s.runNamed names args (s.start h notices) = .ok r c → h.KeptBy r.context.heap →
      (∃ r' c', s.runNamed names args (s.start r.context.heap notices') = .ok r' c' ∧
        r.Same r' ∧ h.KeptBy r'.context.heap) ∧
      ∀ (depth room : Nat) (key : String) (passed : List Value), (∀ v ∈ passed, v.Within h) →
        SameOutcome (l.runFunction depth room key passed h notices)
          (l.runFunction depth room key passed r.context.heap notices') := by
  intro s
  refine ⟨fun f c hf => ?_, fun r c hr hkept => ?_⟩
  · have hheap : c.heap = h := Setup.heap_of_runNamed_error hf
    obtain ⟨e, d, d', he, he'⟩ | ⟨r, r', d, d', hr, -⟩ :=
      runNamed_extends hh (.refl h) hl hi hnames hargs functionScope notices notices'
    · rw [he] at hf
      cases hf
      exact ⟨d', hheap ▸ he'⟩
    · rw [hr] at hf
      cases hf
  · obtain ⟨hsize, hmarks⟩ := runNamed_grows hh hl hi hnames hargs hr
    have hg : h.Extends r.context.heap := ⟨hsize, hmarks, hkept⟩
    refine ⟨?_, fun depth room key passed hpassed =>
      runFunction_extends hh hg hl hpassed depth room key notices notices'⟩
    obtain ⟨f, d, d', hf, -⟩ | ⟨r₁, r', d, d', hr₁, hr', ρ, hρ, hmoved⟩ :=
      runNamed_extends hh hg hl hi hnames hargs functionScope notices notices'
    · rw [hf] at hr
      cases hr
    · rw [hr₁] at hr
      cases hr
      exact ⟨r', d', hr', hmoved.same, keptBy_of_moved hh hρ hmoved hkept⟩

/-- Adds a number to an array that is made from a value, and reads an array that is shared. -/
def appending (initial : Value) : List Instruction :=
  [{ tag := "createTable"
     config := .ofList
       [("variableName", .text "t"), ("tableType", .text "array"), ("initialValue", initial)] },
   { tag := "insertIntoTable"
     config := .ofList [("tableVariable", .text "t"), ("valueSource", .text "1")] },
   { tag := "readVariable"
     config := .ofList
       [("variableName", .text "u"), ("defaultValue", .table 0), ("resultVariable", .text "v")] }]

/-- Goes by no functions. -/
def appendingSetup (initial : Value) : Setup :=
  setup ⟨none, {}⟩ (appending initial) false

/-- A heap with an empty array, which configurations may hold. -/
def oneArray : Heap := { tables := #[.array []] }

/-- The outcome of a run from a heap. -/
def appended (initial : Value) (h : Heap) : RunResult :=
  (appendingSetup initial).runFrom ((appendingSetup initial).start h #[])

/-- Each run adds to an array of its own. -/
theorem appending_new_same :
    oneArray.Closed ∧ (∀ i ∈ appending (.text "[]"), i.Within oneArray) ∧
    oneArray.KeptBy (appended (.text "[]") oneArray).context.heap ∧
    ∃ r' c', (appendingSetup (.text "[]")).runNamed [] []
        ((appendingSetup (.text "[]")).start (appended (.text "[]") oneArray).context.heap #[]) =
          .ok r' c' ∧
      (appended (.text "[]") oneArray).Same r' := by
  have hclosed : oneArray.Closed := ⟨by decide, by decide⟩
  have hwithin : ∀ i ∈ appending (.text "[]"), i.Within oneArray := by decide +kernel
  have hkept : oneArray.KeptBy (appended (.text "[]") oneArray).context.heap := by decide +kernel
  have hruns := rerun_same_unless_written ⟨none, {}⟩ (appending (.text "[]")) false [] [] #[] #[]
    hclosed .none hwithin (by simp) (by simp)
  obtain ⟨⟨r', c', hr', hsame, -⟩, -⟩ := hruns.2 (appended (.text "[]") oneArray) _ rfl hkept
  exact ⟨hclosed, hwithin, hkept, r', c', hr', hsame⟩

/-- Runs that add to the array in the configuration find what the run before has added. -/
theorem appending_shared_differs :
    let first := appended (.table 0) oneArray
    let second := appended (.table 0) first.context.heap
    first.success = true ∧ second.success = true ∧
    first.context.heap.array? (first.context.getVariable "t" .nil) = some [.int 1] ∧
    second.context.heap.array? (second.context.getVariable "t" .nil) = some [.int 1, .int 1] ∧
    ¬ first.Same second := by
  intro first second
  have hshown : (Display.resultTree second).json nestingLimit ≠
      (Display.resultTree first).json nestingLimit := by
    decide +kernel
  refine ⟨by decide +kernel, by decide +kernel, by decide +kernel, by decide +kernel, ?_⟩
  rintro ⟨-, -, -, ρ, htree⟩
  exact hshown (by rw [htree, Tree.json_move])

end Library

end NodeScript
