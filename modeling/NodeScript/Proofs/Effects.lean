import NodeScript.Library

/-!
What evaluating an instruction reads of the state of a run and what it changes there. Every handler
is put together from a few changes of the context, so a relation between two runs that each of these
keeps is kept by an evaluation.
-/

namespace NodeScript

variable {α β : Type} {N : Array Diagnostic → Array Diagnostic → Prop}
  {S : Context → Context → Prop}

/-! ### Handlers and their kinds -/

theorem Checked.exists_of_map {f : α → β} {x : Checked α} {b : β} (h : x.map f = .valid b) :
    ∃ a, x = .valid a ∧ f a = b := by
  cases x with
  | valid a => exact ⟨a, rfl, by simpa [Checked.map] using h⟩
  | invalid problems => simp [Checked.map] at h

theorem Checked.exists_of_seq {f : Checked (α → β)} {x : Checked α} {b : β}
    (h : f.seq x = .valid b) : ∃ g a, f = .valid g ∧ x = .valid a ∧ g a = b := by
  cases f with
  | invalid problems => cases x <;> simp [Checked.seq] at h
  | valid g =>
    obtain ⟨a, ha, hb⟩ := Checked.exists_of_map h
    exact ⟨g, a, rfl, ha, hb⟩

theorem Checked.valid_of_within {x : Checked α} {step : String} {a : α}
    (h : x.within step = .valid a) : x = .valid a := by
  cases x <;> simp_all [Checked.within]

/-- Whether a handler is of a kind. -/
def Handler.IsOf : HandlerKind → Handler → Prop
  | .condition, .condition _ => True
  | .numericFor, .numericFor _ => True
  | .genericFor, .genericFor _ => True
  | .breakLoop, .breakLoop => True
  | .giveBack, .giveBack _ => True
  | .call, .call _ => True
  | .leaf _, .leaf _ => True
  | _, _ => False

theorem Handler.decoder_isOf {h : Heap} {kind : HandlerKind} {fields : Fields} {handler : Handler}
    (hd : Handler.decoder h kind fields = .valid handler) : handler.IsOf kind := by
  cases kind with
  | breakLoop =>
    obtain rfl : Handler.breakLoop = handler := by simpa [decoder, pure] using hd
    trivial
  | condition | numericFor | genericFor | giveBack | call | leaf =>
    obtain ⟨_, -, rfl⟩ := Checked.exists_of_map hd
    trivial

theorem Handler.kind_eq_call {h : Heap} {kind : HandlerKind} {fields : Fields} {call : Call}
    (hd : Handler.decoder h kind fields = .valid (.call call)) : kind = .call := by
  have hof := decoder_isOf hd
  cases kind <;> first | rfl | exact hof.elim

/-- An instruction with a handler is a leaf or has the control that its handler is for. -/
theorem Instruction.control_of_kind {i : Instruction} {kind : HandlerKind}
    (hk : HandlerKind.ofTag? i.tag = some kind) :
    (i.control = none ∧ ∃ l, kind = .leaf l) ∨
      ∃ control, i.control = some control ∧ HandlerKind.ofControl? control = some kind := by
  unfold HandlerKind.ofTag? at hk
  unfold Instruction.control
  cases ho : Control.ofTag? i.tag with
  | none =>
    rw [ho] at hk
    obtain ⟨l, -, rfl⟩ := Option.map_eq_some_iff.1 hk
    exact Or.inl ⟨rfl, l, rfl⟩
  | some control =>
    rw [ho] at hk
    exact Or.inr ⟨control, rfl, hk⟩

/-- Conditions apart, a handler is for one control only. -/
theorem Instruction.control_eq {i : Instruction} {kind : HandlerKind} {control : Control}
    (hk : HandlerKind.ofTag? i.tag = some kind) (hc : HandlerKind.ofControl? control = some kind)
    (hne : kind ≠ .condition) : i.control = some control := by
  obtain ⟨-, l, rfl⟩ | ⟨control', hi, ho⟩ := control_of_kind hk
  · cases control <;> simp [HandlerKind.ofControl?] at hc
  · rw [hi]
    cases control <;> cases hc <;> cases control' <;> simp_all [HandlerKind.ofControl?]

/-- Evaluating an instruction that has a handler: its configuration is refused, or the handler
runs. -/
theorem Instruction.evaluate_of_kind {i : Instruction} {kind : HandlerKind}
    (hk : HandlerKind.ofTag? i.tag = some kind) (start : String) (caller : Caller) (c : Context) :
    i.evaluate start caller c =
      match Handler.decoder c.heap kind i.config.get? with
      | .invalid problems => .ok .nothing (i.refuse problems c)
      | .valid handler => handler.run start caller c := by
  have hget (f : Context → Exec Reply) : (get >>= f) c = f c c := rfl
  simp only [evaluate, hk, hget]
  cases Handler.decoder c.heap kind i.config.get? <;> rfl

theorem Instruction.evaluate_of_control {i : Instruction} {control : Control} {kind : HandlerKind}
    (hi : i.control = some control) (hk : HandlerKind.ofControl? control = some kind)
    (start : String) (caller : Caller) (c : Context) :
    i.evaluate start caller c =
      match Handler.decoder c.heap kind i.config.get? with
      | .invalid problems => .ok .nothing (i.refuse problems c)
      | .valid handler => handler.run start caller c := by
  have htag : HandlerKind.ofTag? i.tag = some kind := by
    unfold HandlerKind.ofTag?
    rw [show Control.ofTag? i.tag = some control from hi]
    exact hk
  exact evaluate_of_kind htag start caller c

/-! ### Two runs side by side -/

/-- Two runs give the same answer and end in related states. -/
inductive Alike (S : Context → Context → Prop) :
    EStateM.Result Fault Context α → EStateM.Result Fault Context α → Prop
  | ok (a : α) {c c' : Context} (h : S c c') : Alike S (.ok a c) (.ok a c')
  | error (f : Fault) {c c' : Context} (h : S c c') : Alike S (.error f c) (.error f c')

/-- From related states a computation gives the same answer in related states. -/
def Exec.Couples (S : Context → Context → Prop) (x : Exec α) : Prop :=
  ∀ c c' : Context, S c c' → Alike S (x c) (x c')

/-- Two runs of a called graph come to the same, but for the notices, which are related. -/
inductive Heard (N : Array Diagnostic → Array Diagnostic → Prop) :
    Except Fault RunResult → Except Fault RunResult → Prop
  | error (f : Fault) : Heard N (.error f) (.error f)
  | ok (r : RunResult) (notices : Array Diagnostic) (h : N r.context.notices notices) :
      Heard N (.ok r) (.ok { r with context := { r.context with notices } })

/-- From related notices a called graph comes to the same, with related notices. -/
def Library.Runner.Hears (N : Array Diagnostic → Array Diagnostic → Prop) (run : Library.Runner) :
    Prop :=
  ∀ (room : Nat) (key : String) (args : List Value) (heap : Heap) (notices notices' : _),
    N notices notices' → Heard N (run room key args heap notices) (run room key args heap notices')

theorem Library.Runner.hears_eq (run : Library.Runner) : run.Hears Eq := by
  rintro room key args heap notices _ rfl
  cases run room key args heap notices with
  | error f => exact .error f
  | ok r => exact .ok r r.context.notices rfl

/-- A relation between contexts that agree in all that handlers read, and that every change made by
a handler keeps, other than a break request and a return. The notices, which only called graphs are
given, need not agree. -/
structure Coupling (N : Array Diagnostic → Array Diagnostic → Prop) (S : Context → Context → Prop) :
    Prop where
  heap {c c' : Context} : S c c' → c'.heap = c.heap
  notices {c c' : Context} : S c c' → N c.notices c'.notices
  bindings {c c' : Context} : S c c' → c'.bindings = c.bindings
  label {c c' : Context} : S c c' → c'.label = c.label
  room {c c' : Context} : S c c' → c'.room = c.room
  warn (message : String) {c c' : Context} : S c c' → S (c.warn message) (c'.warn message)
  addRecord (r : Record) {c c' : Context} : S c c' → S (c.addRecord r) (c'.addRecord r)
  bind (name : String) (v : Value) {c c' : Context} :
    S c c' → S (c.bind name v) (c'.bind name v)
  share (heap : Heap) {notices notices' : Array Diagnostic} (hn : N notices notices')
    {c c' : Context} : S c c' → S { c with heap, notices } { c' with heap, notices := notices' }

namespace Coupling

variable (hS : Coupling N S) {c c' : Context}

include hS

theorem setHeap (h : S c c') (heap : Heap) : S { c with heap } { c' with heap } :=
  hS.share heap (hS.notices h) h

theorem setVariable (h : S c c') (name : String) (v : Value) :
    S (c.setVariable name v) (c'.setVariable name v) := by
  unfold Context.setVariable
  split
  · exact hS.warn _ h
  · exact hS.bind _ _ h

theorem adopt (h : S c c') (d : Draft) : S (c.adopt d) (c'.adopt d) := by
  rw [Context.adopt, Context.adopt, ← Array.foldl_toList, ← Array.foldl_toList]
  have hd := hS.setHeap h d.heap
  generalize { c with heap := d.heap } = c, { c' with heap := d.heap } = c' at hd
  induction d.warnings.toList generalizing c c' with
  | nil => exact hd
  | cons w ws ih => exact ih _ _ (hS.warn w hd)

theorem writeTable (h : S c c') (a : Address) (t : Table) :
    S { c with heap := c.heap.set a t } { c' with heap := c'.heap.set a t } := by
  rw [hS.heap h]
  exact hS.setHeap h _

theorem commit (h : S c c') (e : Effect) : S (c.commit e) (c'.commit e) := by
  obtain ⟨binding, write, entry, output⟩ := e
  have hbinding : S (c.commit ⟨binding, none, none, output⟩)
      (c'.commit ⟨binding, none, none, output⟩) := by
    cases binding with
    | none => exact h
    | some p => exact hS.bind p.1 p.2 h
  have hwrite : S (c.commit ⟨binding, write, none, output⟩)
      (c'.commit ⟨binding, write, none, output⟩) := by
    cases write with
    | none => exact hbinding
    | some p => exact hS.writeTable hbinding p.1 p.2
  cases entry with
  | none => exact hwrite
  | some r => exact hS.addRecord r hwrite

omit hS in
theorem pure (a : α) : Exec.Couples S (Pure.pure a : Exec α) :=
  fun _ _ h => Alike.ok a h

omit hS in
theorem andThen {x : Exec α} {f : α → Exec β} (hx : x.Couples S) (hf : ∀ a, (f a).Couples S) :
    Exec.Couples S (x >>= f) := by
  intro c c' h
  have hc := hx c c' h
  simp only [Bind.bind, EStateM.bind]
  generalize x c = r, x c' = r' at hc
  cases hc with
  | ok a h => exact hf a _ _ h
  | error f h => exact Alike.error f h

omit hS in
theorem fetch {f : Context → Exec α} (hf : ∀ c c', S c c' → Alike S (f c c) (f c' c')) :
    Exec.Couples S (get >>= f) :=
  fun c c' h => hf c c' h

omit hS in
theorem modify {f : Context → Context} (hf : ∀ c c', S c c' → S (f c) (f c')) :
    Exec.Couples S (modify f : Exec Unit) :=
  fun c c' h => Alike.ok () (hf c c' h)

omit hS in
theorem lift (e : Except Fault α) : Exec.Couples S (Exec.lift e) := by
  intro c c' h
  cases e with
  | ok a => exact Alike.ok a h
  | error f => exact Alike.error f h

theorem evaluate (f : Scope → Eval α) : Exec.Couples S (Exec.evaluate f) := by
  intro c c' h
  have hf : f { c' with heap := {} }.scope { heap := c'.heap, room := c'.room } =
      f { c with heap := {} }.scope { heap := c.heap, room := c.room } := by
    simp only [Context.scope, hS.bindings h, hS.label h, hS.heap h, hS.room h]
  unfold Exec.evaluate
  dsimp only
  rw [hf]
  cases f { c with heap := {} }.scope { heap := c.heap, room := c.room } with
  | ok a d => exact Alike.ok a (hS.adopt h d)
  | error e d => exact Alike.error e (hS.adopt h d)

theorem leaf (l : Leaf) : Exec.Couples S (Exec.leaf l) :=
  andThen (hS.evaluate _) fun e => andThen (modify fun _ _ h => hS.commit h e) fun _ => pure _

theorem apply (o : HeaderOutcome) : Exec.Couples S o.apply := by
  cases o with
  | skip => exact pure _
  | enter bindings entry =>
    refine andThen (modify fun c c' h => ?_) fun _ => pure _
    induction bindings generalizing c c' with
    | nil => exact h
    | cons b bs ih => exact ih _ _ (hS.setVariable h _ _)
  | refused message =>
    refine andThen (modify fun c c' h => ?_) fun _ => pure _
    rw [hS.label h]
    exact hS.addRecord _ h

/-- A called graph sees the heap, the notices and the levels of nesting. It gives back the heap and
the notices, and an entry about its failure. -/
theorem asCaller {run : Library.Runner} (hrun : run.Hears N) (key : String) (args : List Value) :
    Exec.Couples S (Library.asCaller run key args) := by
  intro c c' h
  have hheard := hrun c.room key args c.heap c.notices c'.notices (hS.notices h)
  have hrun' : run c.room key args c.heap c'.notices = run c'.room key args c'.heap c'.notices := by
    rw [hS.room h, hS.heap h]
  rw [hrun'] at hheard
  unfold Library.asCaller
  dsimp only
  generalize run c.room key args c.heap c.notices = x,
    run c'.room key args c'.heap c'.notices = x' at hheard
  cases hheard with
  | error f => exact Alike.error f h
  | ok r notices hn =>
    have hr := hS.share r.context.heap hn h
    cases hs : r.success with
    | true =>
      simp only [hs, if_true]
      exact Alike.ok r.returnValue hr
    | false =>
      simp only [hs]
      exact Alike.ok Value.nil (hS.addRecord (Library.failureRecord key r) hr)

theorem invoke {run : Library.Runner} (hrun : run.Hears N) (name key : String)
    (args : List Value) : Exec.Couples S (Call.invoke (Library.asCaller run) name key args) := by
  intro c c' h
  have hc := hS.asCaller hrun key args c c' h
  unfold Call.invoke
  generalize Library.asCaller run key args c = r, Library.asCaller run key args c' = r' at hc
  cases hc with
  | ok v h => exact Alike.ok _ h
  | error f h =>
    dsimp only
    split
    · rw [hS.label h]
      exact Alike.ok _ (hS.addRecord _ h)
    · exact Alike.error f h

theorem call {run : Library.Runner} (hrun : run.Hears N) (call : Call) (start : String) :
    Exec.Couples S (call.run start (Library.asCaller run)) := by
  unfold Call.run
  dsimp only
  split
  · exact andThen (modify fun _ _ h => hS.warn _ (hS.setVariable h _ _)) fun _ => pure _
  · refine andThen (hS.evaluate _) fun args => andThen (hS.invoke hrun _ _ _) fun p => ?_
    refine andThen (modify fun _ _ h => ?_) fun _ => pure _
    unfold Call.setResult
    split
    · exact hS.setVariable h _ _
    · exact hS.warn _ h

theorem giveBack (hread : ∀ c c', S c c' → c'.returned = c.returned)
    (hreturn : ∀ v c c', c.returned = none → S c c' →
      S { c with returned := some v } { c' with returned := some v })
    (g : GiveBack) : Exec.Couples S g.run := by
  refine andThen (hS.evaluate _) fun p => andThen (fun c c' h => ?_) fun _ => pure _
  change Alike S (.ok (c.setReturn p.1).1 (c.setReturn p.1).2)
    (.ok (c'.setReturn p.1).1 (c'.setReturn p.1).2)
  unfold Context.setReturn
  rw [hread c c' h]
  cases hc : c.returned with
  | none => exact Alike.ok _ (hreturn _ c c' hc h)
  | some v => exact Alike.ok _ (hS.warn _ h)

end Coupling

/-- What a relation must bear besides, if an instruction is a break or a return. -/
structure Coupling.Bears (S : Context → Context → Prop) (control : Option Control) : Prop where
  requestBreak : control = some .breakLoop → ∀ c c', S c c' → S c.requestBreak c'.requestBreak
  returned : control = some .giveBack → ∀ c c', S c c' → c'.returned = c.returned
  setReturned : control = some .giveBack → ∀ v c c', c.returned = none → S c c' →
    S { c with returned := some v } { c' with returned := some v }

namespace Coupling

variable (hS : Coupling N S) {i : Instruction}

include hS

theorem handler {kind : HandlerKind} {handler : Handler} (hk : handler.IsOf kind)
    (hi : HandlerKind.ofTag? i.tag = some kind) (hb : Bears S i.control)
    {run : Library.Runner} (hrun : run.Hears N) (start : String) :
    Exec.Couples S (handler.run start (Library.asCaller run)) := by
  cases handler with
  | condition c => exact andThen (hS.evaluate _) fun _ => pure _
  | numericFor c => exact andThen (hS.evaluate _) fun o => andThen (hS.apply o) fun _ => pure _
  | genericFor c => exact andThen (hS.evaluate _) fun o => andThen (hS.apply o) fun _ => pure _
  | breakLoop =>
    obtain rfl : kind = .breakLoop := by cases kind <;> first | rfl | exact hk.elim
    have hc : i.control = some .breakLoop := Instruction.control_eq hi rfl (by simp)
    exact andThen (modify (hb.requestBreak hc)) fun _ => pure _
  | giveBack g =>
    obtain rfl : kind = .giveBack := by cases kind <;> first | rfl | exact hk.elim
    have hc : i.control = some .giveBack := Instruction.control_eq hi rfl (by simp)
    exact andThen (hS.giveBack (hb.returned hc) (hb.setReturned hc) g) fun _ => pure _
  | call call => exact andThen (hS.call hrun call start) fun _ => pure _
  | leaf l =>
    refine andThen (hS.leaf l) fun r => ?_
    cases r with
    | none => exact pure _
    | some r => exact pure _

/-- The evaluation of an instruction keeps every coupling that bears it. -/
theorem instruction (hb : Bears S i.control) {run : Library.Runner} (hrun : run.Hears N)
    (start : String) : Exec.Couples S (i.evaluate start (Library.asCaller run)) := by
  intro c c' h
  unfold Instruction.evaluate
  cases hk : HandlerKind.ofTag? i.tag with
  | none => exact pure _ _ _ h
  | some kind =>
    refine fetch (fun c c' h => ?_) c c' h
    rw [hS.heap h]
    cases hd : Handler.decoder c.heap kind i.config.get? with
    | invalid problems =>
      exact Alike.ok _ (hS.addRecord _ (hS.warn _ h))
    | valid handler => exact hS.handler (Handler.decoder_isOf hd) hk hb hrun start c c' h

end Coupling

/-! ### One run before and after -/

/-- The state that a computation leaves, whether it gives an answer or a fault. -/
def Exec.after (x : Exec α) (c : Context) : Context :=
  match x c with
  | .ok _ c => c
  | .error _ c => c

/-- Sets variables one after the other. -/
def Context.setVariables (bindings : List (String × Value)) (c : Context) : Context :=
  bindings.foldl (fun c (name, v) => c.setVariable name v) c

/-- A relation that holds across every change made by a handler, other than a break request and a
return. -/
structure Tolerant (R : Context → Context → Prop) : Prop where
  refl (c : Context) : R c c
  trans {a b c : Context} : R a b → R b c → R a c
  warn (message : String) (c : Context) : R c (c.warn message)
  addRecord (r : Record) (c : Context) : R c (c.addRecord r)
  bind (name : String) (v : Value) (c : Context) : R c (c.bind name v)
  share (heap : Heap) (notices : Array Diagnostic) (c : Context) : R c { c with heap, notices }

namespace Tolerant

variable {R : Context → Context → Prop} (hR : Tolerant R) {i : Instruction}

include hR

/-- A run beside itself, with what has become of a state that it came from. -/
theorem coupling (origin : Context) : Coupling Eq fun c c' => c' = c ∧ R origin c where
  heap h := by rw [h.1]
  notices h := by rw [h.1]
  bindings h := by rw [h.1]
  label h := by rw [h.1]
  room h := by rw [h.1]
  warn message c c' h := ⟨by rw [h.1], hR.trans h.2 (hR.warn message c)⟩
  addRecord r c c' h := ⟨by rw [h.1], hR.trans h.2 (hR.addRecord r c)⟩
  bind name v c c' h := ⟨by rw [h.1], hR.trans h.2 (hR.bind name v c)⟩
  share heap notices _ hn c c' h := ⟨by rw [h.1, hn], hR.trans h.2 (hR.share heap notices c)⟩

theorem setVariable (name : String) (v : Value) (c : Context) : R c (c.setVariable name v) :=
  ((hR.coupling c).setVariable ⟨rfl, hR.refl c⟩ name v).2

theorem setVariables (bindings : List (String × Value)) (c : Context) :
    R c (c.setVariables bindings) := by
  induction bindings generalizing c with
  | nil => exact hR.refl c
  | cons b bs ih => exact hR.trans (hR.setVariable b.1 b.2 c) (ih _)

theorem instruction (hbreak : i.control = some .breakLoop → ∀ c, R c (Context.requestBreak c))
    (hreturn : i.control = some .giveBack → ∀ v (c : Context), c.returned = none →
      R c { c with returned := some v })
    (start : String) (run : Library.Runner) (c : Context) :
    R c (Exec.after (i.evaluate start (Library.asCaller run)) c) := by
  have hb : Coupling.Bears (fun a a' => a' = a ∧ R c a) i.control :=
    { requestBreak := fun hi a a' h => ⟨by rw [h.1], hR.trans h.2 (hbreak hi a)⟩
      returned := fun _ a a' h => by rw [h.1]
      setReturned := fun hi v a a' hn h => ⟨by rw [h.1], hR.trans h.2 (hreturn hi v a hn)⟩ }
  have h := (hR.coupling c).instruction hb run.hears_eq start c c ⟨rfl, hR.refl c⟩
  unfold Exec.after
  generalize i.evaluate start (Library.asCaller run) c = r at h
  cases h with
  | ok a h => exact h.2
  | error f h => exact h.2

end Tolerant

/-- A part of the state that no handler touches, unless it be by a break or a return. -/
theorem tolerant_part {γ : Type} (part : Context → γ)
    (hwarn : ∀ message c, part (Context.warn message c) = part c)
    (hrecord : ∀ r c, part (Context.addRecord r c) = part c)
    (hbind : ∀ name v c, part (Context.bind name v c) = part c)
    (hshare : ∀ heap notices c, part { c with heap, notices } = part c) :
    Tolerant fun c c' => part c' = part c where
  refl _ := rfl
  trans h h' := h'.trans h
  warn := hwarn
  addRecord := hrecord
  bind := hbind
  share := hshare

theorem tolerant_loops : Tolerant fun c c' => c'.loops = c.loops :=
  tolerant_part Context.loops (fun _ _ => rfl) (fun _ _ => rfl) (fun _ _ _ => rfl) fun _ _ _ => rfl

theorem tolerant_breakRequested : Tolerant fun c c' => c'.breakRequested = c.breakRequested :=
  tolerant_part Context.breakRequested (fun _ _ => rfl) (fun _ _ => rfl) (fun _ _ _ => rfl)
    fun _ _ _ => rfl

theorem tolerant_returned : Tolerant fun c c' => c'.returned = c.returned :=
  tolerant_part Context.returned (fun _ _ => rfl) (fun _ _ => rfl) (fun _ _ _ => rfl)
    fun _ _ _ => rfl

/-- What is reported between two states of a run are warnings. -/
def OnlyWarns (c c' : Context) : Prop :=
  ∀ d ∈ c'.diagnostics, d ∈ c.diagnostics ∨ d.kind = .warning

theorem tolerant_onlyWarns : Tolerant OnlyWarns where
  refl _ d h := Or.inl h
  trans h h' d hd := (h' d hd).elim (h d) Or.inr
  warn message c d h := by
    obtain h | rfl := Array.mem_push.1 h
    · exact Or.inl h
    · exact Or.inr rfl
  addRecord _ _ d h := Or.inl h
  bind _ _ _ d h := Or.inl h
  share _ _ _ d h := Or.inl h

/-! ### Loops are not read -/

def Context.withLoops (loops : LoopStack) (c : Context) : Context := { c with loops }

theorem coupling_withLoops (loops : LoopStack) : Coupling Eq fun c c' => c' = c.withLoops loops where
  heap h := by rw [h]; rfl
  notices h := by rw [h]; rfl
  bindings h := by rw [h]; rfl
  label h := by rw [h]; rfl
  room h := by rw [h]; rfl
  warn _ _ _ h := by rw [h]; rfl
  addRecord _ _ _ h := by rw [h]; rfl
  bind _ _ _ _ h := by rw [h]; rfl
  share _ _ _ hn _ _ h := by rw [h, hn]; rfl

theorem setVariables_withLoops (bindings : List (String × Value)) (loops : LoopStack)
    (c : Context) :
    (c.withLoops loops).setVariables bindings = (c.setVariables bindings).withLoops loops := by
  induction bindings generalizing c with
  | nil => rfl
  | cons b bs ih =>
    have hset := (coupling_withLoops loops).setVariable (rfl : c.withLoops loops = _) b.1 b.2
    simp only [Context.setVariables, List.foldl_cons] at ih ⊢
    rw [hset]
    exact ih _

/-- Handlers work alike whatever loops are in progress. -/
theorem evaluate_withLoops (i : Instruction) (start : String) (run : Library.Runner)
    (loops : LoopStack) (c : Context) :
    Alike (fun c c' => c' = c.withLoops loops) (i.evaluate start (Library.asCaller run) c)
      (i.evaluate start (Library.asCaller run) (c.withLoops loops)) := by
  refine (coupling_withLoops loops).instruction ?_ run.hears_eq start c _ rfl
  exact
    { requestBreak := fun _ c c' h => by rw [h]; rfl
      returned := fun _ c c' h => by rw [h]; rfl
      setReturned := fun _ v c c' _ h => by rw [h]; rfl }

end NodeScript
