import NodeScript.Proofs.Passes

/-!
Loops over a table. A loop over all entries works on those that the table has when its header is
evaluated. A loop over the items of an array reads the array anew for every pass, so it sees what
its own body does to it; if the body leaves the array alone, both visit the same.
-/

namespace NodeScript

namespace GenericFor

variable (loop : GenericFor)

/-- The variable that holds the key of the entry at hand. -/
def keyName : String :=
  (givenName? loop.keyVariable).getD (if loop.iteration = .ipairs then "index" else "key")

/-- The variable that holds the value of the entry at hand. -/
def valueName : String := nameOr loop.valueVariable "value"

theorem keyName_ne_empty : loop.keyName ≠ "" := by
  unfold keyName givenName?
  cases hg : loop.keyVariable.filter (· != "") with
  | none =>
    rw [Option.getD_none]
    split <;> decide
  | some name =>
    simpa using (Option.filter_eq_some_iff.1 hg).2

theorem valueName_ne_empty : loop.valueName ≠ "" := by
  unfold valueName nameOr
  split
  · decide
  · assumption

/-- The two loop variables of an entry, in the order in which they are set. -/
def bindings (entry : Value × Value) : List (String × Value) :=
  [(loop.keyName, entry.1), (loop.valueName, entry.2)]

/-- What the loop variables hold. -/
def seen (c : Context) : Option Value × Option Value :=
  (c.bindings.get? loop.keyName, c.bindings.get? loop.valueName)

/-- What the loop variables show of an entry: if both are the same, the value. -/
def shown (entry : Value × Value) : Option Value × Option Value :=
  (some (if loop.keyName = loop.valueName then entry.2 else entry.1), some entry.2)

theorem seen_of_bindings {c c' : Context} {entry : Value × Value}
    (h : c'.bindings = (c.setVariables (loop.bindings entry)).bindings) :
    loop.seen c' = loop.shown entry := by
  have hset : c.setVariables (loop.bindings entry) =
      (c.setVariable loop.keyName entry.1).setVariable loop.valueName entry.2 := rfl
  have hvalue := Context.get?_setVariable loop.valueName_ne_empty entry.2
    (c.setVariable loop.keyName entry.1)
  unfold seen shown
  rw [h, hset, hvalue]
  by_cases hsame : loop.keyName = loop.valueName
  · rw [if_pos hsame, hsame, Context.get?_setVariable loop.valueName_ne_empty]
  · rw [if_neg hsame, Context.get?_setVariable_of_ne hsame,
      Context.get?_setVariable loop.keyName_ne_empty]

/-- What the frame of a loop over all entries holds. -/
def snapshot (pending : List (Value × Value)) : GenericLoop where
  iteration := .pairs
  keyVariable := loop.keyName
  valueVariable := loop.valueName
  pending := some pending

/-- What is decided in a loop over entries that were there when it began. -/
def pairsLaw (entries : List (Value × Value)) (k : Nat) (_ : Context) : Setup.Decision :=
  entries[k]?.map fun entry =>
    (.generic (loop.snapshot (entries.drop (k + 1))), loop.bindings entry)

/-- What the frame of a loop over the items of an array holds. -/
def cursor (a : Address) (k : Nat) : GenericLoop where
  iteration := .ipairs
  keyVariable := loop.keyName
  valueVariable := loop.valueName
  source := some (.table a)
  index := k

/-- What is decided in a loop over the items that an array has at the time. -/
def ipairsLaw (a : Address) (k : Nat) (c : Context) : Setup.Decision :=
  ((ItemSource.table a).items c.heap)[k]?.map fun v =>
    (.generic (loop.cursor a k), loop.bindings (.int (k + 1), v))

end GenericFor

/-- What the end of a loop over a table decides. -/
def GenericLoop.decision (h : Heap) (l : GenericLoop) : Except Fault Setup.Decision :=
  (l.advance h).1.map fun found => found.map fun entry =>
    (.generic (l.advance h).2, [((l.advance h).2.keyVariable, entry.1),
      ((l.advance h).2.valueVariable, entry.2)])

namespace GenericFor

variable (loop : GenericFor)

theorem enter_pairs (hpairs : loop.iteration = .pairs) (a : Address) (table : Table) :
    loop.enter a table =
      match entries table with
      | [] => .skip
      | entry :: rest => .enter (loop.bindings entry) (.generic (loop.snapshot rest)) := by
  unfold enter
  simp only [hpairs]
  cases hentries : entries table with
  | nil => rfl
  | cons entry rest => simp [bindings, snapshot, keyName, valueName, hpairs]

theorem enter_ipairs (hipairs : loop.iteration = .ipairs) (a : Address) (items : List Value) :
    loop.enter a (.array items) =
      match items with
      | [] => .skip
      | v :: _ => .enter (loop.bindings (.int 1, v)) (.generic (loop.cursor a 0)) := by
  unfold enter
  simp only [hipairs]
  cases items with
  | nil => rfl
  | cons v rest => simp [bindings, cursor, keyName, valueName, hipairs]

theorem snapshot_decision (entries : List (Value × Value)) (k : Nat) (c : Context) :
    (loop.snapshot (entries.drop k)).decision c.heap = .ok (loop.pairsLaw entries k c) := by
  by_cases hk : k < entries.length
  · rw [List.drop_eq_getElem_cons hk, pairsLaw, List.getElem?_eq_getElem hk]
    rfl
  · rw [List.drop_eq_nil_of_le (by omega), pairsLaw, List.getElem?_eq_none (by omega)]
    rfl

theorem cursor_decision (a : Address) (k : Nat) (c : Context) :
    (loop.cursor a k).decision c.heap = .ok (loop.ipairsLaw a (k + 1) c) := by
  have hadvance : (loop.cursor a k).advance c.heap =
      if ((k : Int) + 1) < ((ItemSource.table a).items c.heap).length then
        ((GenericLoop.itemAt ((ItemSource.table a).items c.heap) (k + 1)).map fun v =>
          some (.int (k + 1 + 1), v), loop.cursor a (k + 1))
      else (.ok none, { loop.cursor a (k + 1) with exhausted := true }) := by
    rfl
  unfold GenericLoop.decision ipairsLaw
  rw [hadvance]
  generalize (ItemSource.table a).items c.heap = items
  by_cases hk : k + 1 < items.length
  · have hitem : GenericLoop.itemAt items ((k : Int) + 1) = .ok items[k + 1] := by
      have hplace : ((k : Int) + 1).toNat = k + 1 := by omega
      have hnonneg : ¬ (k : Int) + 1 < 0 := by omega
      simp only [GenericLoop.itemAt, if_neg hnonneg, hplace, List.getElem?_eq_getElem hk]
    rw [if_pos (by omega), hitem, List.getElem?_eq_getElem hk]
    rfl
  · rw [if_neg (by omega), List.getElem?_eq_none (by omega)]
    rfl

end GenericFor

namespace Setup

/-- Control is at the header of a loop over the table at an address, which its variable holds. -/
structure AtTable (s : Setup) (loop : GenericFor) (a : Address) (i : Instruction)
    (start last : Nat) (m : Machine) : Prop extends s.AtLoop .generic i start last m where
  decoded : GenericFor.decoder i.config.get? = .valid loop
  held : ∃ name, givenName? loop.tableVariable = some name ∧
    m.context.bindings.get? name = some (.table a)

variable {s : Setup} {loop : GenericFor} {a : Address} {i : Instruction} {start last : Nat}
  {m m' : Machine}

/-- The end of a loop over a table carries out what it decides. -/
theorem AtLoop.decides_generic {l : GenericLoop} {d : Decision} {rest : LoopStack}
    (h : s.AtLoop .generic i start last m) (hpc : m'.pc = last) (hready : s.Ready m')
    (hloops : m'.context.loops = ⟨start, last, .generic l⟩ :: rest)
    (hd : l.decision m'.context.heap = .ok d) : s.Decides start last rest m' d := by
  refine h.decides_end hpc hready hloops fun c hc => ?_
  rw [← hc, GenericLoop.decision] at hd
  refine (@Program.endGenericFor_apply last c l start last rest).trans ?_
  generalize l.advance c.heap = r at hd ⊢
  obtain ⟨found, next⟩ := r
  cases found with
  | error f => cases hd
  | ok found =>
    cases hd
    cases found <;> rfl

theorem AtTable.evaluate (h : s.AtTable loop a i start last m) :
    ∃ c, (visit i m).context.Evaluated c ∧
      i.evaluate s.settings.functionPrefix s.caller (visit i m).context =
        .ok (.entry (loop.enter a (m.context.heap.get a)).entry)
          ((loop.enter a (m.context.heap.get a)).settle c) := by
  obtain ⟨name, hname, htable⟩ := h.held
  have hd : Handler.decoder (visit i m).context.heap .genericFor i.config.get? =
      .valid (.genericFor loop) := by
    simp only [Handler.decoder, Functor.map, h.decoded, Checked.map]
  have hget : (visit i m).context.scope.get name = .table a := by
    change (m.context.bindings.get? name).getD _ = _
    rw [htable]
    rfl
  have heval : loop.eval (visit i m).context.scope
      { heap := (visit i m).context.heap, room := (visit i m).context.room } =
        .ok (loop.enter a (m.context.heap.get a))
          { heap := (visit i m).context.heap, room := (visit i m).context.room } := by
    simp only [GenericFor.eval, hname, hget]
    rfl
  refine ⟨_, Context.evaluated_adopt { (visit i m).context with heap := {} }
    { heap := (visit i m).context.heap, room := (visit i m).context.room }, ?_⟩
  rw [evaluate_header h.control rfl hd (fun _ _ => rfl), Context.evaluate_apply, heval]

/-- A loop whose law goes through a list of entries shows them in turn. -/
theorem Obeys.seen {law : Nat → Context → Decision}
    (h : s.Obeys start last m.context.loops law m) (hcompletes : s.Completes start last m)
    (entries : List (Value × Value))
    (hlaw : ∀ passes m', s.Rounds start last m passes m' → ∃ state,
      law passes.length m'.context =
        entries[passes.length]?.map fun entry => (state, loop.bindings entry)) :
    ∃ passes final, s.RunsThrough start last m passes final ∧
      passes.map (fun p => loop.seen p.1.context) = entries.map loop.shown := by
  obtain ⟨passes, final, hruns, hlength⟩ :=
    h.runsThrough hcompletes entries.length fun passes m' hr _ => by
      obtain ⟨state, heq⟩ := hlaw passes m' hr
      simp [heq]
  refine ⟨passes, final, hruns, List.ext_getElem (by simpa using hlength) fun k hk hk' => ?_⟩
  rw [List.length_map] at hk hk'
  obtain ⟨m', hrounds, -⟩ := hruns.rounds
  obtain ⟨decided, state, bindings, hr, hdecided, hopens⟩ := h.opened hrounds hk
  obtain ⟨state', heq⟩ := hlaw _ decided hr
  rw [List.length_take, min_eq_left hk.le, hdecided, List.getElem?_eq_getElem hk'] at heq
  obtain ⟨-, rfl⟩ := Prod.mk.inj (Option.some.inj heq)
  rw [List.getElem_map, List.getElem_map, loop.seen_of_bindings hopens.bindings]

/-! ### All entries -/

/-- A loop over all entries goes by those that the table has at its header. -/
theorem AtTable.obeys_pairs (h : s.AtTable loop a i start last m)
    (hpairs : loop.iteration = .pairs) :
    s.Obeys start last m.context.loops
      (loop.pairsLaw (GenericFor.entries (m.context.heap.get a))) m where
  setup := h.setup
  block := ⟨.generic, h.block⟩
  first := by
    obtain ⟨c, hc, he⟩ := h.evaluate
    rw [loop.enter_pairs hpairs] at he
    unfold GenericFor.pairsLaw
    generalize GenericFor.entries (m.context.heap.get a) = entries at he ⊢
    cases entries with
    | nil => exact h.decides_skipped (by simp) he hc
    | cons entry rest => exact h.decides_entered (by simp) he hc rfl
  next := by
    intro k c state bindings m' hlaw hpc hready hloops
    obtain ⟨entry, -, heq⟩ := Option.map_eq_some_iff.1 hlaw
    cases heq
    exact h.decides_generic hpc hready hloops (loop.snapshot_decision _ (k + 1) m'.context)

theorem AtTable.seen_pairs (h : s.AtTable loop a i start last m)
    (hpairs : loop.iteration = .pairs) (hcompletes : s.Completes start last m) :
    ∃ passes final, s.RunsThrough start last m passes final ∧
      passes.map (fun p => loop.seen p.1.context) =
        (GenericFor.entries (m.context.heap.get a)).map loop.shown :=
  (h.obeys_pairs hpairs).seen hcompletes _ fun _ _ _ => ⟨_, rfl⟩

/-- A loop over all entries of a table, with two different loop variables, each pass of which
completes. It runs through one pass for each entry that the table has when the header is evaluated,
in their order, and whatever the passes before have done the loop variables hold the key and the
value of that entry when a pass begins. -/
theorem pairs_visits_entries_at_header {s : Setup} {loop : GenericFor} {a : Address}
    {i : Instruction} {start last : Nat} {m : Machine} (h : s.AtTable loop a i start last m)
    (hpairs : loop.iteration = .pairs) (hnames : loop.keyName ≠ loop.valueName)
    (hcompletes : s.Completes start last m) :
    ∃ passes final, s.RunsThrough start last m passes final ∧
      passes.map (fun p => (p.1.context.bindings.get? loop.keyName,
          p.1.context.bindings.get? loop.valueName)) =
        (GenericFor.entries (m.context.heap.get a)).map fun entry =>
          (some entry.1, some entry.2) := by
  obtain ⟨passes, final, hruns, hseen⟩ := h.seen_pairs hpairs hcompletes
  refine ⟨passes, final, hruns, hseen.trans (List.map_congr_left fun entry _ => ?_)⟩
  rw [GenericFor.shown, if_neg hnames]

/-- Goes over the table `t`. -/
def overTable (iteration : String) : Instruction where
  tag := "forGeneric"
  config := .ofList [("tableVariable", .text "t"), ("iterationType", .text iteration),
    ("keyVariable", .text "k"), ("valueVariable", .text "v")]
  runtimeId := some "header"

/-- A loop over a table, with a body that writes to the item at a position. -/
def overwriting (iteration : String) (position : Int) : Setup :=
  Library.setupFor {} (fun _ key _ _ _ => .error (.call (.noLookup key)))
    [overTable iteration,
     { tag := "setTableValue"
       config := .ofList [("tableVariable", .text "t"), ("keyType", .text "number_literal"),
         ("keyValue", .int position), ("valueSource", .text "9")] },
     { tag := "endForGeneric" }] false

def tenTwenty : Heap := (({} : Heap).store (.list [.int 10, .int 20])).2

def overwritingStart (iteration : String) (position : Int) : Machine where
  context := ((overwriting iteration position).start tenTwenty #[]).bindParameters ["t"] [.table 0]

theorem overwriting_atTable {iteration : String} {loop : GenericFor} (position : Int)
    (hloop : GenericFor.decoder (overTable iteration).config.get? = .valid loop)
    (hname : loop.tableVariable = some "t") :
    (overwriting iteration position).AtTable loop 0 (overTable iteration) 0 2
      (overwritingStart iteration position) where
  setup := ⟨_, _, _, _, _, _, rfl⟩
  reachable := ⟨_, 0, begins_bindParameters _ ["t"] [.table 0] tenTwenty #[], .refl _⟩
  ready := ⟨rfl, rfl, rfl⟩
  pc := rfl
  header := rfl
  block := ⟨[], [none], [], rfl, .whole (.plain rfl .empty), rfl, rfl⟩
  decoded := hloop
  held := ⟨"t", by rw [hname]; rfl, rfl⟩

/-- The second item is bound as it was, although the first pass has written to it. -/
theorem overwriting_pairs :
    ∃ passes final,
      (overwriting "pairs" 2).RunsThrough 0 2 (overwritingStart "pairs" 2) passes final ∧
      passes.map (fun p => (p.1.context.bindings.get? "k", p.1.context.bindings.get? "v")) =
        [(some (.int 1), some (.int 10)), (some (.int 2), some (.int 20))] := by
  have hat : (overwriting "pairs" 2).AtTable ⟨some "t", .pairs, some "k", "v"⟩ 0
      (overTable "pairs") 0 2 (overwritingStart "pairs" 2) :=
    overwriting_atTable 2 rfl rfl
  have hcompletes : (overwriting "pairs" 2).Completes 0 2 (overwritingStart "pairs" 2) :=
    (completes_of_completes? (fun _ => true) 2 3 (by decide +kernel)).1
  exact pairs_visits_entries_at_header hat rfl (by decide) hcompletes

/-! ### Items of an array -/

/-- A loop over the items of an array goes by what the array is at the time. -/
theorem AtTable.obeys_ipairs {items : List Value} (h : s.AtTable loop a i start last m)
    (hipairs : loop.iteration = .ipairs) (harray : m.context.heap.get a = .array items) :
    s.Obeys start last m.context.loops (loop.ipairsLaw a) m where
  setup := h.setup
  block := ⟨.generic, h.block⟩
  first := by
    obtain ⟨c, hc, he⟩ := h.evaluate
    have hitems : (ItemSource.table a).items m.context.heap = items := by
      simp [ItemSource.items, Heap.array?, harray]
    rw [harray, loop.enter_ipairs hipairs] at he
    unfold GenericFor.ipairsLaw
    rw [hitems]
    cases items with
    | nil => exact h.decides_skipped (by simp) he hc
    | cons v rest => exact h.decides_entered (by simp) he hc rfl
  next := by
    intro k c state bindings m' hlaw hpc hready hloops
    obtain ⟨v, -, heq⟩ := Option.map_eq_some_iff.1 hlaw
    cases heq
    exact h.decides_generic hpc hready hloops (loop.cursor_decision a k m'.context)

/-- As long as the array is as it was, the loop variables show its entries in turn. -/
theorem AtTable.seen_ipairs {items : List Value} (h : s.AtTable loop a i start last m)
    (hipairs : loop.iteration = .ipairs) (hcompletes : s.Completes start last m)
    (halone : ∀ passes m', s.Rounds start last m passes m' →
      m'.context.heap.get a = .array items) :
    ∃ passes final, s.RunsThrough start last m passes final ∧
      passes.map (fun p => loop.seen p.1.context) =
        (GenericFor.entries (.array items)).map loop.shown := by
  refine (h.obeys_ipairs hipairs (halone [] m (.done m))).seen hcompletes _ fun passes m' hr => ?_
  refine ⟨.generic (loop.cursor a passes.length), ?_⟩
  have hitems : (ItemSource.table a).items m'.context.heap = items := by
    simp [ItemSource.items, Heap.array?, halone passes m' hr]
  simp only [GenericFor.ipairsLaw, hitems, GenericFor.entries, List.getElem?_map,
    List.getElem?_zipIdx, Option.map_map]
  cases items[passes.length]? <;> simp

/-- A loop over the items of an array. After any number of passes it looks at the array as it is
then: if there is an item at the next position, the next pass begins with that position and that
item in the loop variables, and if there is none, the loop is left. So if every pass completes and
leaves the array alone, the loop variables hold the same in turn as in a loop over all entries of
the same array. -/
theorem ipairs_visits_items_at_time {s : Setup} {loop : GenericFor} {a : Address}
    {i : Instruction} {start last : Nat} {m : Machine} (h : s.AtTable loop a i start last m)
    (hipairs : loop.iteration = .ipairs) {items : List Value}
    (harray : m.context.heap.get a = .array items) :
    (∀ passes m', s.Rounds start last m passes m' →
      (∀ v, ((ItemSource.table a).items m'.context.heap)[passes.length]? = some v →
        ∃ t m₁, s.program.instructions[m'.pc]? = some t ∧ s.step t m' = (m₁, none) ∧
          m₁.pc = start + 1 ∧ loop.seen m₁.context = loop.shown (.int (passes.length + 1), v)) ∧
      (((ItemSource.table a).items m'.context.heap)[passes.length]? = none →
        ∃ final, s.RunsThrough start last m passes final)) ∧
    (s.Completes start last m →
      (∀ passes m', s.Rounds start last m passes m' → m'.context.heap.get a = .array items) →
      ∀ {s' : Setup} {loop' : GenericFor} {a' : Address} {i' : Instruction} {start' last' : Nat}
        {m' : Machine}, s'.AtTable loop' a' i' start' last' m' → loop'.iteration = .pairs →
        (loop'.keyName = loop'.valueName ↔ loop.keyName = loop.valueName) →
        m'.context.heap.get a' = .array items → s'.Completes start' last' m' →
        ∃ passes final passes' final', s.RunsThrough start last m passes final ∧
          s'.RunsThrough start' last' m' passes' final' ∧
          passes.map (fun p => loop.seen p.1.context) =
            passes'.map (fun p => loop'.seen p.1.context) ∧
          passes.map (fun p => loop.seen p.1.context) =
            (GenericFor.entries (.array items)).map loop.shown) := by
  have hobeys := h.obeys_ipairs hipairs harray
  refine ⟨fun passes m' hr => ⟨fun v hv => ?_, fun hnone => ?_⟩, ?_⟩
  · have hdecides := hobeys.decides hr
    rw [GenericFor.ipairsLaw, hv] at hdecides
    obtain ⟨m₁, hopens⟩ := hdecides
    obtain ⟨t, ht, hstep⟩ := hopens.step
    exact ⟨t, m₁, ht, hstep, hopens.pc, loop.seen_of_bindings hopens.bindings⟩
  · have hdecides := hobeys.decides hr
    rw [GenericFor.ipairsLaw, hnone] at hdecides
    obtain ⟨final, hleaves⟩ := hdecides
    exact ⟨final, hr.runsThrough hleaves⟩
  · intro hcompletes halone s' loop' a' i' start' last' m' h' hpairs hnames harray' hcompletes'
    obtain ⟨passes, final, hruns, hseen⟩ := h.seen_ipairs hipairs hcompletes halone
    obtain ⟨passes', final', hruns', hseen'⟩ := h'.seen_pairs hpairs hcompletes'
    refine ⟨passes, final, passes', final', hruns, hruns', ?_, hseen⟩
    have hshown : loop'.shown = loop.shown := by
      funext entry
      simp only [GenericFor.shown, hnames]
    rw [hseen, hseen', harray', hshown]

/-- The second item is bound as the first pass has left it. If the body writes to no item of the
array, both kinds of loop bind the same. -/
theorem overwriting_ipairs :
    (∃ passes m', (overwriting "ipairs" 2).Rounds 0 2 (overwritingStart "ipairs" 2) passes m' ∧
      ∃ t m₁, (overwriting "ipairs" 2).step t m' = (m₁, none) ∧ m₁.pc = 1 ∧
        m₁.context.bindings.get? "k" = some (.int 2) ∧
        m₁.context.bindings.get? "v" = some (.int 9)) ∧
    ∃ passes final passes' final',
      (overwriting "ipairs" 7).RunsThrough 0 2 (overwritingStart "ipairs" 7) passes final ∧
      (overwriting "pairs" 7).RunsThrough 0 2 (overwritingStart "pairs" 7) passes' final' ∧
      passes.map (fun p => (p.1.context.bindings.get? "k", p.1.context.bindings.get? "v")) =
        passes'.map (fun p => (p.1.context.bindings.get? "k", p.1.context.bindings.get? "v")) ∧
      passes.length = 2 := by
  have hat (position : Int) :
      (overwriting "ipairs" position).AtTable ⟨some "t", .ipairs, some "k", "v"⟩ 0
        (overTable "ipairs") 0 2 (overwritingStart "ipairs" position) :=
    overwriting_atTable position rfl rfl
  constructor
  · have hfirst : ((overwriting "ipairs" 2).step (overTable "ipairs")
        (overwritingStart "ipairs" 2)).2 = none := by
      decide +kernel
    have hcrossed : (((overwriting "ipairs" 2).crossed? 0 2 2
        ((overwriting "ipairs" 2).step (overTable "ipairs") (overwritingStart "ipairs" 2)).1).map
        fun m => ((overwriting "ipairs" 2).isReady m, (ItemSource.table 0).items m.context.heap)) =
          some (true, [.int 10, .int 9]) := by
      decide +kernel
    obtain ⟨m', hm', heq⟩ := Option.map_eq_some_iff.1 hcrossed
    obtain ⟨hready, hitems⟩ := Prod.mk.inj heq
    have hrounds : (overwriting "ipairs" 2).Rounds 0 2 (overwritingStart "ipairs" 2) _ m' :=
      .more (hat 2).header (Prod.ext rfl hfirst)
        ⟨by decide +kernel, crosses_of_crossed? hm', isReady_iff.1 hready⟩ (.done m')
    obtain ⟨hnext, -⟩ := (ipairs_visits_items_at_time (hat 2) rfl rfl).1 _ m' hrounds
    obtain ⟨t, m₁, -, hstep, hpc, hseen⟩ := hnext (.int 9) (by rw [hitems]; rfl)
    obtain ⟨hkey, hvalue⟩ := Prod.mk.inj hseen
    exact ⟨_, m', hrounds, t, m₁, hstep, hpc, hkey, hvalue⟩
  · obtain ⟨hcompletes, halone⟩ : (overwriting "ipairs" 7).Completes 0 2
        (overwritingStart "ipairs" 7) ∧ _ :=
      completes_of_completes? (fun m => m.context.heap.get 0 = .array [.int 10, .int 20]) 2 3
        (by decide +kernel)
    have hat' : (overwriting "pairs" 7).AtTable ⟨some "t", .pairs, some "k", "v"⟩ 0
        (overTable "pairs") 0 2 (overwritingStart "pairs" 7) :=
      overwriting_atTable 7 rfl rfl
    have hcompletes' : (overwriting "pairs" 7).Completes 0 2 (overwritingStart "pairs" 7) :=
      (completes_of_completes? (fun _ => true) 2 3 (by decide +kernel)).1
    obtain ⟨passes, final, passes', final', hruns, hruns', hsame, hseen⟩ :=
      (ipairs_visits_items_at_time (hat 7) rfl rfl).2 hcompletes
        (fun passes m' hr => of_decide_eq_true (halone passes m' hr)) hat' rfl (by decide) rfl
        hcompletes'
    refine ⟨passes, final, passes', final', hruns, hruns', hsame, ?_⟩
    simpa [GenericFor.entries] using congrArg List.length hseen

end Setup

end NodeScript
