import NodeScript.Proofs.CallStack
import NodeScript.Proofs.Closed.Contexts
import NodeScript.Proofs.Realms.Evaluation

/-!
Runs in a realm. If a run starts with values of a realm in a heap of the realm, it holds no other
values whatever it does and calls. So libraries that find the same graphs in every heap of the realm
run alike.
-/

namespace NodeScript

variable {α β : Type} {R : Realm} {Q : α → Prop} {P : β → Prop} {c : Context} {i : Instruction}

/-- What may be held may also be written to. -/
structure Realm.Writable (R : Realm) : Prop where
  write {h : Heap} {a : Address} {t : Table} : R.heap h → R.value (.table a) →
    (∀ v ∈ t.values, R.value v) → R.heap (h.set a t)

theorem Key.value_ne_table (k : Key) (a : Address) : k.value ≠ .table a := by
  cases k <;> simp [value]

/-! ### Loops in progress -/

/-- What the loop still has to visit may be held. -/
structure GenericLoop.In (R : Realm) (l : GenericLoop) : Prop where
  table : ∀ a, l.source = some (.table a) → R.value (.table a)
  fixed : ∀ items, l.source = some (.fixed items) → ∀ v ∈ items, R.value v
  pending : ∀ entries, l.pending = some entries → ∀ e ∈ entries, R.value e.1 ∧ R.value e.2

def LoopState.In (R : Realm) : LoopState → Prop
  | .generic loop => loop.In R
  | .whileLoop | .numeric _ => True

theorem GenericLoop.In.items {h : Heap} {l : GenericLoop} (hl : l.In R) (hh : R.heap h)
    {source : ItemSource} (hs : l.source = some source) : ∀ v ∈ source.items h, R.value v := by
  cases source with
  | fixed items => exact hl.fixed items hs
  | table a =>
    simp only [ItemSource.items]
    cases hitems : h.array? (.table a) with
    | none => exact List.forall_mem_nil _
    | some items => exact (R.inherits hh).array? (hl.table a hs) hitems

/-- The next entry may be held, and so may what is left after it. -/
theorem GenericLoop.In.advance {h : Heap} {l : GenericLoop} (hl : l.In R) (hh : R.heap h) :
    (l.advance h).2.In R ∧
      ∀ k v, (l.advance h).1 = .ok (some (k, v)) → R.value k ∧ R.value v := by
  have hnone {l' : GenericLoop} (hl' : l'.In R) :
      l'.In R ∧ ∀ k v, (Except.ok none : Except Fault (Option (Value × Value))) =
        .ok (some (k, v)) → R.value k ∧ R.value v :=
    ⟨hl', fun _ _ hr => nomatch hr⟩
  unfold GenericLoop.advance
  split
  · exact hnone hl
  · split
    · next source _ hsource =>
      dsimp only
      split
      · refine ⟨⟨hl.table, hl.fixed, hl.pending⟩, fun k v hr => ?_⟩
        cases hitem : itemAt (source.items h) (l.index + 1) with
        | error f =>
          rw [hitem] at hr
          cases hr
        | ok item =>
          rw [hitem] at hr
          cases hr
          exact ⟨R.plain nofun, hl.items hh hsource _ (mem_of_itemAt hitem)⟩
      · exact hnone ⟨hl.table, hl.fixed, hl.pending⟩
    · split
      · next entry rest hpending =>
        obtain ⟨hentry, hrest⟩ := List.forall_mem_cons.1 (hl.pending _ hpending)
        refine ⟨⟨hl.table, hl.fixed, fun entries hr => ?_⟩, fun k v hr => ?_⟩
        · cases hr
          exact hrest
        · cases hr
          exact hentry
      · exact hnone ⟨hl.table, hl.fixed, hl.pending⟩

/-! ### Contexts -/

/-- The context holds only values of the realm. -/
structure Context.In (R : Realm) (c : Context) : Prop where
  heap : R.heap c.heap
  bindings : ∀ e ∈ c.bindings.entries, R.value e.2
  returned : ∀ v, c.returned = some v → R.value v
  loops : ∀ frame ∈ c.loops, frame.state.In R

/-- An instruction that is configured with values of the realm. -/
def Instruction.In (R : Realm) (i : Instruction) : Prop :=
  ∀ e ∈ i.config.entries, R.value e.2

/-- The first argument, where nil stands for one that is not given. -/
theorem Realm.value_head {args : List Value} (hargs : ∀ v ∈ args, R.value v) :
    R.value (args.head?.getD .nil) := by
  cases args with
  | nil => exact R.plain nofun
  | cons v vs => exact hargs v List.mem_cons_self

namespace Context.In

variable (hc : c.In R)

include hc

theorem scope : c.scope.In R := by
  intro name v hv
  obtain ⟨e, he, rfl⟩ := Dict.exists_mem_of_get? hv
  exact hc.bindings e he

theorem withHeap {h : Heap} (hh : R.heap h) : ({ c with heap := h } : Context).In R :=
  ⟨hh, hc.bindings, hc.returned, hc.loops⟩

theorem withLoops {loops : LoopStack} (hl : ∀ frame ∈ loops, frame.state.In R) :
    ({ c with loops } : Context).In R :=
  ⟨hc.heap, hc.bindings, hc.returned, hl⟩

theorem report (d : Diagnostic) : (c.report d).In R :=
  ⟨hc.heap, hc.bindings, hc.returned, hc.loops⟩

theorem addRecord (r : Record) : (c.addRecord r).In R :=
  ⟨hc.heap, hc.bindings, hc.returned, hc.loops⟩

theorem bind (name : String) {v : Value} (hv : R.value v) : (c.bind name v).In R := by
  have hput := Dict.forall_put (P := fun _ : String => True) (Q := R.value) (k := name) trivial hv
    (fun e he => ⟨trivial, hc.bindings e he⟩)
  exact ⟨hc.heap, fun e he => (hput e he).2, hc.returned, hc.loops⟩

theorem setVariable (name : String) {v : Value} (hv : R.value v) :
    (c.setVariable name v).In R := by
  unfold Context.setVariable
  split
  · exact hc.report _
  · exact hc.bind name hv

omit hc in
theorem setVariables (bindings : List (String × Value)) (hc : c.In R)
    (hb : ∀ b ∈ bindings, R.value b.2) : (c.setVariables bindings).In R := by
  induction bindings generalizing c with
  | nil => exact hc
  | cons b bs ih =>
    obtain ⟨hhead, htail⟩ := List.forall_mem_cons.1 hb
    exact ih (hc.setVariable b.1 hhead) htail

theorem setReturn {v : Value} (hv : R.value v) : (c.setReturn v).2.In R := by
  unfold Context.setReturn
  split
  · exact hc.report _
  · refine ⟨hc.heap, hc.bindings, fun w hw => ?_, hc.loops⟩
    cases hw
    exact hv

/-- The value for a name is the first argument, or nil if there is none. -/
theorem setVariableNamed (name : Value) {args : List Value} (hargs : ∀ v ∈ args, R.value v)
    {r : Bool × Context} (hr : c.setVariableNamed name (args.head?.getD .nil) = .ok r) :
    r.2.In R := by
  unfold Context.setVariableNamed at hr
  split at hr
  · cases hr
    exact hc.setVariable _ (Realm.value_head hargs)
  · obtain ⟨shown, -, hr⟩ := Serial.exists_of_bind hr
    cases hr
    exact hc.report _

omit hc in
theorem bindParameters (parameters : List String) (args : List Value) (hc : c.In R)
    (hargs : ∀ v ∈ args, R.value v) : (c.bindParameters parameters args).In R := by
  induction parameters generalizing c args with
  | nil => exact hc
  | cons name names ih =>
    exact ih args.tail (hc.setVariable name (Realm.value_head hargs)) fun v hv => hargs v (List.mem_of_mem_tail hv)

theorem adopt {d : Draft} (hd : R.heap d.heap) : (c.adopt d).In R := by
  have hheap := hc.withHeap hd
  rw [Context.adopt, ← Array.foldl_toList]
  generalize { c with heap := d.heap } = c' at hheap
  induction d.warnings.toList generalizing c' with
  | nil => exact hheap
  | cons w ws ih => exact ih _ (hheap.report _)

theorem commit (hR : R.Writable) {e : Effect} (he : e.In R) : (c.commit e).In R := by
  obtain ⟨binding, write, entry, output⟩ := e
  have hbinding : (c.commit ⟨binding, none, none, output⟩).In R := by
    cases binding with
    | none => exact hc
    | some b => exact hc.bind b.1 (he.binding b.1 b.2 rfl)
  have hwrite : (c.commit ⟨binding, write, none, output⟩).In R := by
    cases write with
    | none => exact hbinding
    | some w =>
      obtain ⟨ha, ht⟩ := he.write w.1 w.2 rfl
      exact hbinding.withHeap (hR.write hbinding.heap ha ht)
  cases entry with
  | none => exact hwrite
  | some r => exact hwrite.addRecord r

end Context.In

/-! ### Computations -/

namespace Realm

/-- A result with some property, or a fault, and a context of the realm. -/
def Ended (R : Realm) (Q : α → Prop) : EStateM.Result Fault Context α → Prop
  | .ok a c => c.In R ∧ Q a
  | .error _ c => c.In R

/-- The computation leads from contexts of the realm to such an end. -/
def Carries (R : Realm) (Q : α → Prop) (x : Exec α) : Prop :=
  ∀ c : Context, c.In R → R.Ended Q (x c)

/-- The same without any claim about the result. -/
abbrev GoesOn (R : Realm) (x : Exec α) : Prop :=
  R.Carries (fun _ => True) x

namespace Carries

theorem pure {a : α} (ha : Q a) : R.Carries Q (Pure.pure a : Exec α) :=
  fun _ hc => ⟨hc, ha⟩

theorem throw (f : Fault) : R.Carries Q (MonadExcept.throw f : Exec α) :=
  fun _ hc => hc

theorem bind {x : Exec α} {f : α → Exec β} (hx : R.Carries Q x)
    (hf : ∀ a, Q a → R.Carries P (f a)) : R.Carries P (x >>= f) := by
  intro c hc
  have hr := hx c hc
  simp only [Bind.bind, EStateM.bind]
  generalize x c = r at hr
  cases r with
  | error e c' => exact hr
  | ok a c' => exact hf a hr.2 c' hr.1

/-- A first part whose result does not matter. -/
theorem andThen {x : Exec α} {f : α → Exec β} (hx : R.GoesOn x) (hf : ∀ a, R.Carries P (f a)) :
    R.Carries P (x >>= f) :=
  bind hx fun a _ => hf a

theorem modify {f : Context → Context} (hf : ∀ c, c.In R → (f c).In R) :
    R.GoesOn (modify f : Exec Unit) :=
  fun c hc => ⟨hf c hc, trivial⟩

theorem get : R.Carries (fun c => c.In R) (MonadState.get : Exec Context) :=
  fun _ hc => ⟨hc, hc⟩

theorem lift {e : Except Fault α} (he : ∀ a, e = .ok a → Q a) : R.Carries Q (Exec.lift e) := by
  cases e with
  | ok a => exact pure (he a rfl)
  | error f => exact fun _ hc => hc

theorem evaluate {f : Scope → Eval α} (hf : ∀ scope, scope.In R → R.Keeps Q (f scope)) :
    R.Carries Q (Exec.evaluate f) := by
  intro c hc
  have hr := hf c.scope hc.scope { heap := c.heap, room := c.room } hc.heap
  have hadopt {d : Draft} (hd : R.heap d.heap) : (Context.adopt { c with heap := {} } d).In R :=
    hc.adopt hd
  rw [Context.evaluate_apply]
  generalize f c.scope { heap := c.heap, room := c.room } = r at hr
  cases r with
  | ok a d => exact ⟨hadopt hr.1, hr.2⟩
  | error e d => exact hadopt hr

end Carries

end Realm

/-! ### Headers -/

def LoopEntry.In (R : Realm) : LoopEntry → Prop
  | .generic loop => loop.In R
  | .skip | .numeric _ => True

def HeaderOutcome.In (R : Realm) : HeaderOutcome → Prop
  | .enter bindings entry => (∀ b ∈ bindings, R.value b.2) ∧ entry.In R
  | .skip | .refused _ => True

def Reply.In (R : Realm) : Reply → Prop
  | .entry e => e.In R
  | .nothing | .record _ | .truth _ => True

namespace GenericFor

theorem value_of_consecutive {d : Dict Key Value} (hd : ∀ v ∈ (Table.map d).values, R.value v) :
    ∀ v ∈ consecutive d, R.value v := by
  unfold consecutive
  generalize d.size = count, 1 = index
  induction count generalizing index with
  | zero => exact List.forall_mem_nil _
  | succ count ih =>
    unfold consecutiveFrom
    cases hv : itemAt? d index with
    | none => exact List.forall_mem_nil _
    | some v =>
      refine List.forall_mem_cons.2 ⟨?_, ih (index + 1)⟩
      have hmem : ∃ e ∈ d.entries, e.2 = v := by
        unfold itemAt? at hv
        split at hv
        · next hget =>
          cases hv
          exact Dict.exists_mem_of_get? hget
        · exact Dict.exists_mem_of_get? hv
      obtain ⟨e, he, rfl⟩ := hmem
      exact List.forall_mem_map.1 hd e he

theorem value_of_entries {t : Table} (ht : ∀ v ∈ t.values, R.value v) :
    ∀ e ∈ entries t, R.value e.1 ∧ R.value e.2 := by
  cases t with
  | array items =>
    refine List.forall_mem_map.2 fun e he => ⟨R.plain nofun, ?_⟩
    exact ht e.1 (List.fst_mem_of_mem_zipIdx he)
  | map d =>
    refine List.forall_mem_map.2 fun e he => ⟨R.plain ?_, List.forall_mem_map.1 ht e he⟩
    exact e.1.value_ne_table

theorem enter_in (f : GenericFor) {a : Address} {t : Table} (ha : R.value (.table a))
    (ht : ∀ v ∈ t.values, R.value v) : (f.enter a t).In R := by
  have hbound {k v : Value} {name name' : String} (hk : R.value k) (hv : R.value v) :
      ∀ b ∈ [(name, k), (name', v)], R.value b.2 :=
    List.forall_mem_cons.2 ⟨hk, List.forall_mem_singleton.2 hv⟩
  unfold enter
  dsimp only
  split
  · cases t with
    | array items =>
      dsimp only
      cases hhead : items.head? with
      | none => trivial
      | some v =>
        refine ⟨hbound (R.plain nofun) (ht v (List.mem_of_mem_head? hhead)), ?_, ?_, ?_⟩
        · rintro _ ⟨⟩
          exact ha
        · rintro _ ⟨⟩
        · rintro _ ⟨⟩
    | map d =>
      have hitems := value_of_consecutive ht
      dsimp only
      cases hhead : (consecutive d).head? with
      | none => trivial
      | some v =>
        refine ⟨hbound (R.plain nofun) (hitems v (List.mem_of_mem_head? hhead)), ?_, ?_, ?_⟩
        · rintro _ ⟨⟩
        · rintro _ ⟨⟩
          exact hitems
        · rintro _ ⟨⟩
  · have hentries := value_of_entries ht
    split
    · trivial
    · next k v rest hsplit =>
      rw [hsplit] at hentries
      obtain ⟨hfirst, hrest⟩ := List.forall_mem_cons.1 hentries
      refine ⟨hbound hfirst.1 hfirst.2, ?_, ?_, ?_⟩
      · rintro _ ⟨⟩
      · rintro _ ⟨⟩
      · rintro _ ⟨⟩
        exact hrest

end GenericFor

namespace Realm

variable {scope : Scope}

theorem stays_condition (hs : scope.In R) {cond : Condition} (hl : R.value cond.lhs)
    (hr : R.value cond.rhs) : R.Stays (cond.eval scope) := by
  refine .bind (keeps_headerOperand hs _ hl (R.plain nofun)) fun lhs _ => ?_
  refine .bind (keeps_headerOperand hs _ hr (R.plain nofun)) fun rhs _ => ?_
  refine .andThen (stays_ask _) fun met => .andThen (stays_ask _) fun _ => ?_
  exact .andThen (stays_ask _) fun _ => .pure trivial

theorem keeps_numericFor (hs : scope.In R) {n : NumericFor} (hstart : R.value n.start)
    (hfinish : R.value n.finish) (hstep : R.value n.step) :
    R.Keeps (fun o => o.In R) (n.eval scope) := by
  refine .bind (keeps_headerOperand hs _ hstart (R.plain nofun)) fun start _ => ?_
  refine .bind (keeps_headerOperand hs _ hfinish (R.plain nofun)) fun finish _ => ?_
  refine .bind (keeps_headerOperand hs _ hstep (R.plain nofun)) fun step _ => ?_
  split
  · exact .pure trivial
  · exact .pure trivial
  · exact .pure trivial
  · split
    · exact .pure trivial
    · dsimp only
      split
      · exact .pure ⟨List.forall_mem_singleton.2 (R.plain nofun), trivial⟩
      · exact .pure trivial

theorem keeps_genericFor (hs : scope.In R) (f : GenericFor) :
    R.Keeps (fun o => o.In R) (f.eval scope) := by
  unfold GenericFor.eval
  split
  · exact .pure trivial
  · refine .bind (keeps_table? (value_get_nil hs _)) fun table? ht => ?_
    match table? with
    | none => exact .andThen (stays_kindName _) fun _ => .pure trivial
    | some (a, table) =>
      obtain ⟨ha, htable⟩ := ht a table rfl
      exact .pure (f.enter_in ha htable)

theorem keeps_giveBack (hs : scope.In R) {b : GiveBack} (hv : R.value b.returnValue) :
    R.Keeps (fun r => R.value r.1) (b.value scope) := by
  unfold GiveBack.value
  split
  · next name _ _ =>
    dsimp only
    split
    · exact .andThen (stays_warn _) fun _ => .pure (value_get_nil hs name)
    · exact .pure (value_get_nil hs name)
  · exact .bind (keeps_literal hv) fun w hw => .pure hw

theorem carries_apply {o : HeaderOutcome} (ho : o.In R) : R.Carries (fun e => e.In R) o.apply := by
  cases o with
  | skip => exact .pure trivial
  | enter bindings entry =>
    refine .andThen (.modify fun c hc => ?_) fun _ => .pure ho.2
    exact Context.In.setVariables bindings hc ho.1
  | refused message => exact .andThen (.modify fun c hc => hc.addRecord _) fun _ => .pure trivial

/-! ### Calls -/

/-- Whatever is called with values of the realm in a heap of the realm ends in the realm. -/
def Answers (R : Realm) (run : Library.Runner) : Prop :=
  ∀ (room : Nat) (key : String) (args : List Value) (heap : Heap) (notices : Array Diagnostic),
    R.heap heap → (∀ v ∈ args, R.value v) →
      ∀ r, run room key args heap notices = .ok r → r.context.In R

/-- Whatever is called with values of the realm in a heap of the realm, both give the same answer. -/
def AnswersAlike (R : Realm) (run run' : Library.Runner) : Prop :=
  ∀ (room : Nat) (key : String) (args : List Value) (heap : Heap) (notices : Array Diagnostic),
    R.heap heap → (∀ v ∈ args, R.value v) →
      run room key args heap notices = run' room key args heap notices

theorem value_returnValue {r : RunResult} (hr : r.context.In R) : R.value r.returnValue := by
  unfold RunResult.returnValue
  cases hv : r.context.returned with
  | none => exact R.plain nofun
  | some v => exact hr.returned v hv

variable {run run' : Library.Runner}

theorem carries_asCaller (hrun : R.Answers run) (key : String) {args : List Value}
    (hargs : ∀ v ∈ args, R.value v) : R.Carries R.value (Library.asCaller run key args) := by
  intro c hc
  have hanswer := hrun c.room key args c.heap c.notices hc.heap hargs
  rw [Library.asCaller_apply]
  generalize run c.room key args c.heap c.notices = x at hanswer
  cases x with
  | error f => exact hc
  | ok r =>
    have hr := hanswer r rfl
    have hback : ({ c with heap := r.context.heap, notices := r.context.notices } : Context).In R :=
      ⟨hr.heap, hc.bindings, hc.returned, hc.loops⟩
    dsimp only
    split
    · exact ⟨hback, value_returnValue hr⟩
    · exact ⟨hback.addRecord _, R.plain nofun⟩

theorem carries_invoke (hrun : R.Answers run) (name key : String) {args : List Value}
    (hargs : ∀ v ∈ args, R.value v) :
    R.Carries (fun r => R.value r.1) (Call.invoke (Library.asCaller run) name key args) := by
  intro c hc
  have hcall := carries_asCaller hrun key hargs c hc
  unfold Call.invoke
  generalize Library.asCaller run key args c = r at hcall
  cases r with
  | ok v c' => exact hcall
  | error f c' =>
    dsimp only
    split
    · exact ⟨hcall.addRecord _, R.plain nofun⟩
    · exact hcall

theorem goesOn_call (hrun : R.Answers run) {call : Call} (start : String)
    (hargs : ∀ s ∈ call.arguments, R.value s.value) :
    R.GoesOn (call.run start (Library.asCaller run)) := by
  unfold Call.run
  dsimp only
  split
  · refine .andThen (.modify fun c hc => ?_) fun _ => .pure trivial
    exact (hc.setVariable _ (v := .nil) (R.plain nofun)).report _
  · refine .bind (.evaluate fun scope hs => keeps_resolveAll hs hargs) fun args hsent => ?_
    refine .bind (carries_invoke hrun _ _ hsent) fun r hv => ?_
    refine .andThen (.modify fun c hc => ?_) fun _ => .pure trivial
    unfold Call.setResult
    split
    · exact hc.setVariable _ hv
    · exact hc.report _

/-! ### Instructions -/

theorem carries_handler (hR : R.Writable) (hrun : R.Answers run) {handler : Handler}
    (hv : ∀ v ∈ handler.values, R.value v) (start : String) :
    R.Carries (fun reply => reply.In R) (handler.run start (Library.asCaller run)) := by
  cases handler with
  | condition cond =>
    refine .andThen (.evaluate fun scope hs => stays_condition hs (hv _ ?_) (hv _ ?_))
      fun met => .pure trivial
    · simp [Handler.values]
    · simp [Handler.values]
  | numericFor n =>
    refine .bind (.evaluate fun scope hs => keeps_numericFor hs (hv _ ?_) (hv _ ?_) (hv _ ?_))
      fun o ho => .bind (carries_apply ho) fun e he => .pure he
    · simp [Handler.values]
    · simp [Handler.values]
    · simp [Handler.values]
  | genericFor f =>
    exact .bind (.evaluate fun scope hs => keeps_genericFor hs f) fun o ho =>
      .bind (carries_apply ho) fun e he => .pure he
  | breakLoop =>
    refine .andThen (.modify fun c hc => ?_) fun _ => .pure trivial
    exact ⟨hc.heap, hc.bindings, hc.returned, hc.loops⟩
  | giveBack b =>
    have hvalue : R.value b.returnValue := hv _ List.mem_cons_self
    refine .andThen (.bind (.evaluate fun scope hs => keeps_giveBack hs hvalue) fun r hr => ?_)
      fun _ => .pure trivial
    exact .andThen (fun c hc => ⟨hc.setReturn hr, trivial⟩) fun _ => .pure trivial
  | call call =>
    exact .andThen (goesOn_call hrun start (List.forall_mem_map.1 hv)) fun _ => .pure trivial
  | leaf l =>
    refine .andThen (.bind (.evaluate fun scope hs => acts_leaf hs hv) fun e he => ?_) fun r => ?_
    · exact .andThen (.modify fun c hc => hc.commit hR he) fun _ => .pure trivial
    · cases r <;> exact .pure trivial

end Realm

/-- What the handler of an instruction is configured with is in the realm. -/
theorem Instruction.In.values {h : Heap} (hi : i.In R) (hh : R.heap h) {kind : HandlerKind}
    {handler : Handler} (hd : Handler.decoder h kind i.config.get? = .valid handler) :
    ∀ v ∈ handler.values, R.value v := by
  refine Handler.forall_values_of_decoder (R.inherits hh) (fun n v hv => ?_)
    (fun _ => R.plain nofun) hd
  obtain ⟨e, he, rfl⟩ := Dict.exists_mem_of_get? hv
  exact hi e he

namespace Realm

variable {run run' : Library.Runner}

theorem carries_instruction (hR : R.Writable) (hrun : R.Answers run) (hi : i.In R)
    (start : String) :
    R.Carries (fun reply => reply.In R) (i.evaluate start (Library.asCaller run)) := by
  unfold Instruction.evaluate
  cases HandlerKind.ofTag? i.tag with
  | none => exact .pure trivial
  | some kind =>
    refine .bind .get fun c hc => ?_
    cases hd : Handler.decoder c.heap kind i.config.get? with
    | invalid problems =>
      exact .andThen (.modify fun c hc => (hc.report _).addRecord _) fun _ => .pure trivial
    | valid handler => exact carries_handler hR hrun (hi.values hc.heap hd) start

/-! ### Control -/

theorem goesOn_pushLoop {frame : LoopFrame} (hf : frame.state.In R) :
    R.GoesOn (Exec.pushLoop frame) := by
  refine .modify fun c hc => hc.withLoops ?_
  unfold LoopStack.pushIfNew
  split
  · next hloops =>
    split
    · exact hc.loops
    · exact List.forall_mem_cons.2 ⟨hf, hc.loops⟩
  · exact List.forall_mem_singleton.2 hf

theorem goesOn_popLoopAt (start : Nat) : R.GoesOn (Exec.popLoopAt start) := by
  refine .modify fun c hc => hc.withLoops ?_
  unfold LoopStack.popIfStart
  split
  · next hloops =>
    split
    · exact fun frame hf => hc.loops frame (hloops ▸ List.mem_cons_of_mem _ hf)
    · exact hc.loops
  · exact List.forall_mem_nil _

theorem goesOn_popLoop : R.GoesOn Exec.popLoop :=
  .modify fun _ hc => hc.withLoops fun frame hf => hc.loops frame (List.mem_of_mem_tail hf)

theorem goesOn_replaceTop {state : LoopState} (hs : state.In R) :
    R.GoesOn (Exec.replaceTop state) := by
  refine .modify fun c hc => ?_
  split
  · next top rest hloops =>
    refine hc.withLoops (List.forall_mem_cons.2 ⟨hs, fun frame hf => ?_⟩)
    exact hc.loops frame (hloops ▸ List.mem_cons_of_mem _ hf)
  · exact hc

theorem carries_expectLoop (kind : LoopKind) (pc : Nat) (terminator : Control) :
    R.Carries (fun frame => frame.state.In R) (Exec.expectLoop kind pc terminator) := by
  refine .bind .get fun c hc => ?_
  obtain ⟨frame, rest, hloops, -, he⟩ | ⟨-, e, he⟩ :=
    Program.expect_cases c.loops kind pc terminator.tag
  · rw [he]
    exact .pure (hc.loops frame (hloops ▸ List.mem_cons_self))
  · rw [he]
    exact .throw _

variable {p : Program} {pc : Nat}

theorem goesOn_blockEnd (kind : BlockKind) (opener : Control) :
    R.GoesOn (p.blockEnd kind opener pc) := by
  unfold Program.blockEnd
  split
  · exact .pure trivial
  · exact .throw _

theorem goesOn_enterLoop (kind : BlockKind) {state? : Option LoopState}
    (hs : ∀ state, state? = some state → state.In R) : R.GoesOn (p.enterLoop kind state? pc) := by
  refine .andThen (goesOn_blockEnd kind _) fun finish => ?_
  cases state? with
  | none => exact .andThen (goesOn_popLoopAt pc) fun _ => .pure trivial
  | some state => exact .andThen (goesOn_pushLoop (hs state rfl)) fun _ => .pure trivial

theorem goesOn_endNumericFor : R.GoesOn (Program.endNumericFor pc) := by
  refine .bind (carries_expectLoop _ _ _) fun frame _ => ?_
  split
  · refine .andThen (.lift fun _ _ => trivial) fun loop => ?_
    split
    · refine .andThen (goesOn_replaceTop trivial) fun _ => ?_
      exact .andThen (.modify fun c hc => hc.setVariable _ (R.plain nofun)) fun _ => .pure trivial
    · exact .andThen goesOn_popLoop fun _ => .pure trivial
  · exact .pure trivial

theorem goesOn_endGenericFor : R.GoesOn (Program.endGenericFor pc) := by
  refine .bind (carries_expectLoop _ _ _) fun frame hframe => ?_
  split
  · next loop hstate =>
    have hloop : loop.In R := by
      rw [hstate] at hframe
      exact hframe
    refine .bind .get fun c hc => ?_
    obtain ⟨hnext, hentry⟩ := hloop.advance hc.heap
    refine .bind (.lift fun _ => id) fun found hfound => ?_
    split
    · next k v =>
      obtain ⟨hk, hv⟩ := hentry k v hfound
      refine .andThen (goesOn_replaceTop hnext) fun _ => ?_
      refine .andThen (.modify fun c hc => ?_) fun _ => .pure trivial
      exact (hc.setVariable _ hk).setVariable _ hv
    · exact .andThen goesOn_popLoop fun _ => .pure trivial
  · exact .pure trivial

theorem goesOn_next (control : Control) {reply : Reply} (hr : reply.In R) :
    R.GoesOn (p.next pc control reply) := by
  have hskip (kind : BlockKind) : R.GoesOn (p.enterLoop kind none pc) :=
    goesOn_enterLoop kind nofun
  have henter (kind : BlockKind) {state : LoopState} (hs : state.In R) :
      R.GoesOn (p.enterLoop kind (some state) pc) :=
    goesOn_enterLoop kind fun _ he => Option.some.inj he ▸ hs
  unfold Program.next
  split
  · exact .pure trivial
  · split
    · exact .pure trivial
    · exact .throw _
  · exact .andThen (goesOn_blockEnd _ _) fun _ => .pure trivial
  · exact henter .whileLoop trivial
  · exact hskip .whileLoop
  · exact .bind (carries_expectLoop _ _ _) fun _ _ => .pure trivial
  · exact henter .numericFor trivial
  · exact hskip .numericFor
  · exact goesOn_endNumericFor
  · exact henter .genericFor hr
  · exact hskip .genericFor
  · exact goesOn_endGenericFor
  all_goals exact .pure trivial

end Realm

/-! ### Runs -/

namespace Setup

variable {s : Setup} {m : Machine} {run run' : Library.Runner} (hR : R.Writable)
  (hrun : R.Answers run) (hs : s.caller = Library.asCaller run)

include hR hrun hs

theorem perform_in (hi : i.In R) (pc : Nat) : R.GoesOn (s.perform pc i) := by
  intro c hc
  have hevaluate := Realm.carries_instruction hR hrun hi s.settings.functionPrefix c hc
  rw [perform_apply, hs]
  generalize i.evaluate s.settings.functionPrefix (Library.asCaller run) c = r at hevaluate
  cases r with
  | error f c' => exact hevaluate
  | ok reply c' =>
    have hlogged : (logged i reply c').In R := by
      cases reply with
      | record output => exact hevaluate.1.addRecord _
      | _ => exact hevaluate.1
    dsimp only
    cases i.control with
    | none => exact ⟨hlogged, trivial⟩
    | some control => exact Realm.goesOn_next control hevaluate.2 _ hlogged

theorem dispatch_in (hi : i.In R) (hm : m.context.In R) : (s.dispatch i m).1.context.In R := by
  have hperform := perform_in hR hrun hs hi m.pc m.context hm
  unfold dispatch
  split
  · unfold passUnknown
    split
    · exact hm.report _
    · exact hm
  · dsimp only
    split
    · next hr =>
      rw [hr] at hperform
      exact hperform.1
    · next hr =>
      rw [hr] at hperform
      exact hperform.report _

/-- A step at an instruction of the realm stays in the realm. -/
theorem step_in (hi : i.In R) (hm : m.context.In R) : (s.step i m).1.context.In R := by
  have hvisit : (visit i m).context.In R := ⟨hm.heap, hm.bindings, hm.returned, hm.loops⟩
  rw [step_apply]
  split
  · exact hm.report _
  · split
    · exact hvisit
    · split
      · unfold leaveLoop
        split
        · next frame rest hloops =>
          refine ⟨hm.heap, hm.bindings, hm.returned, fun frame hf => ?_⟩
          have hloops : m.context.loops = _ := hloops
          exact hm.loops frame (hloops ▸ List.mem_cons_of_mem _ hf)
        · exact hvisit.report _
      · exact dispatch_in hR hrun hs hi hvisit

theorem steps_in (hi : ∀ i ∈ s.program.instructions, i.In R) (budget : Nat)
    (hm : m.context.In R) : (s.steps budget m).1.context.In R := by
  induction budget generalizing m with
  | zero => exact hm
  | succ budget ih =>
    unfold steps
    split
    · exact hm
    · next i hpc =>
      have hstep := step_in hR hrun hs (hi i (Array.mem_of_getElem? hpc)) hm
      split
      · next hr =>
        rw [hr] at hstep
        exact hstep
      · next hr =>
        rw [hr] at hstep
        exact ih hstep

theorem runFrom_in (hi : ∀ i ∈ s.program.instructions, i.In R) (hc : c.In R) :
    (s.runFrom c).context.In R := by
  have hm := steps_in hR hrun hs hi s.settings.maxIterations (m := { context := c }) hc
  unfold runFrom conclude
  dsimp only
  split
  · exact hm
  · exact hm.report _
  all_goals
    split
    · split
      · exact hm.report _
      · exact hm
    · exact ⟨hm.heap, hm.bindings, hm.returned, hm.loops⟩

omit hR hrun hs in
/-- What a call asks for is in the realm. -/
theorem request_in (hi : i.In R) (hm : m.context.In R) {q : Request}
    (hq : s.request? i m = some q) : R.heap q.heap ∧ ∀ v ∈ q.args, R.value v := by
  obtain ⟨-, -, call, hcall, hrequest⟩ := request?_eq_some hq
  obtain ⟨name, args, c, -, hsend, rfl⟩ := Call.request?_eq_some hrequest
  have hvisit : (visit i m).context.In R := ⟨hm.heap, hm.bindings, hm.returned, hm.loops⟩
  have hhandler : Handler.decoder m.context.heap .call i.config.get? = .valid (.call call) := by
    simp only [Handler.decoder, Decoder.map_apply, hcall]
    rfl
  have hargs := List.forall_mem_map.1 (hi.values hm.heap hhandler)
  have hsent := Realm.Carries.evaluate (fun scope hs => Realm.keeps_resolveAll hs hargs) _ hvisit
  change R.Ended _ (call.send (visit i m).context) at hsent
  rw [hsend] at hsent
  exact ⟨hsent.1.heap, hsent.2⟩

/-- Whatever a run calls that way, it takes the same steps. -/
theorem steps_calling (hsame : R.AnswersAlike run run')
    (hi : ∀ i ∈ s.program.instructions, i.In R) (budget : Nat) (hm : m.context.In R) :
    s.steps budget m = (s.calling run').steps budget m := by
  induction budget generalizing m with
  | zero => rfl
  | succ budget ih =>
    unfold steps
    have hprogram : (s.calling run').program = s.program := rfl
    rw [hprogram]
    split
    · rfl
    · next i hpc =>
      have hi := hi i (Array.mem_of_getElem? hpc)
      have hstep : s.step i m = (s.calling run').step i m := by
        refine step_calling hs fun q hq => ?_
        obtain ⟨hheap, hargs⟩ := request_in hi hm hq
        exact hsame _ _ _ _ _ hheap hargs
      have hnext := step_in hR hrun hs hi hm
      rw [← hstep]
      generalize s.step i m = r at hnext
      obtain ⟨m', _ | ending⟩ := r
      · exact ih hnext
      · rfl

theorem runFrom_calling (hsame : R.AnswersAlike run run')
    (hi : ∀ i ∈ s.program.instructions, i.In R) (hc : c.In R) :
    s.runFrom c = (s.calling run').runFrom c := by
  have hm : ({ context := c } : Machine).context.In R := hc
  have hsteps := steps_calling hR hrun hs hsame hi s.settings.maxIterations hm
  unfold runFrom
  rw [hsteps]
  rfl

end Setup

namespace Library

variable {l l' : Library}

/-- A graph whose instructions are configured with values of the realm. -/
def Resolves (l : Library) (R : Realm) : Prop :=
  ∀ h key graph, R.heap h → l.resolve h key = .ok graph → ∀ i ∈ graph.instructions, i.In R

theorem instruction_in {instructions : List Instruction} (hi : ∀ i ∈ instructions, i.In R) :
    ∀ i ∈ (Program.ofInstructions instructions).instructions, i.In R := by
  intro i hmem
  obtain ⟨pc, hpc⟩ := Array.getElem?_of_mem hmem
  obtain ⟨given, hgiven, -, hconfig⟩ := Store.mem_of_getElem? hpc
  intro e he
  exact hi given hgiven e (hconfig ▸ he)

theorem start_in {s : Setup} {heap : Heap} (hheap : R.heap heap) (notices : Array Diagnostic) :
    (s.start heap notices).In R :=
  ⟨hheap, List.forall_mem_nil _, (fun _ hv => nomatch hv), List.forall_mem_nil _⟩

theorem goesOn_bindNamed (names : List Value) {args : List Value}
    (hargs : ∀ v ∈ args, R.value v) : R.GoesOn (Context.bindNamed names args) := by
  induction names generalizing args with
  | nil => exact .pure trivial
  | cons name names ih =>
    have hrest := ih fun v hv => hargs v (List.mem_of_mem_tail hv)
    refine .bind .get fun c hc => ?_
    dsimp only
    split
    · next bound c' hset =>
      exact .andThen (fun _ _ => ⟨hc.setVariableNamed name hargs hset, trivial⟩) fun _ => hrest
    · exact .andThen (.throw _) fun _ => hrest

variable (hR : R.Writable) (hgraphs : l.Resolves R)

include hR hgraphs

/-- A function graph that is run for a caller in the realm ends in the realm. -/
theorem run_in {run : Runner} (hrun : R.Answers run) {graph : Graph} {room : Nat} {key : String}
    {args : List Value} {heap : Heap} (notices : Array Diagnostic) (hheap : R.heap heap)
    (hargs : ∀ v ∈ args, R.value v) (hgraph : l.resolve heap key = .ok graph) :
    ((setupFor l.settings run graph.instructions true room).run (graph.parameters.getD []) args heap
      notices).context.In R := by
  unfold Setup.run
  exact Setup.runFrom_in hR hrun rfl (instruction_in (hgraphs heap key graph hheap hgraph))
    (Context.In.bindParameters _ args (start_in hheap notices) hargs)

theorem run_alike {run run' : Runner} (hrun : R.Answers run) (hsame : R.AnswersAlike run run')
    {graph : Graph} (room : Nat) {key : String} {args : List Value} {heap : Heap}
    (notices : Array Diagnostic) (hheap : R.heap heap) (hargs : ∀ v ∈ args, R.value v)
    (hgraph : l.resolve heap key = .ok graph) :
    (setupFor l.settings run graph.instructions true room).run (graph.parameters.getD []) args heap
        notices =
      (setupFor l.settings run' graph.instructions true room).run (graph.parameters.getD []) args
        heap notices := by
  have hcalling : (setupFor l.settings run graph.instructions true room).calling run' =
      setupFor l.settings run' graph.instructions true room := rfl
  have hstart : (setupFor l.settings run' graph.instructions true room).start heap notices =
      (setupFor l.settings run graph.instructions true room).start heap notices := rfl
  unfold Setup.run
  rw [hstart, ← hcalling]
  exact Setup.runFrom_calling hR hrun rfl hsame
    (instruction_in (hgraphs heap key graph hheap hgraph))
    (Context.In.bindParameters _ args (start_in hheap notices) hargs)

/-- Libraries that find the same graphs in every heap of a realm give the same answers there. By
induction on how deep calls may nest, together with that the answers are in the realm. -/
theorem runFunction_alike (hsettings : l'.settings = l.settings)
    (hresolve : ∀ h key, R.heap h → l.resolve h key = l'.resolve h key) (depth : Nat) :
    R.Answers (l.runFunction depth) ∧
      R.AnswersAlike (l.runFunction depth) (l'.runFunction depth) := by
  induction depth with
  | zero =>
    refine ⟨fun _ _ _ _ _ _ _ r hr => ?_, fun _ key _ _ _ _ _ => ?_⟩
    · cases hr
    · simp only [runFunction, hsettings]
  | succ depth ih =>
    obtain ⟨hanswers, halike⟩ := ih
    constructor
    · intro room key args heap notices hheap hargs r hr
      cases hgraph : l.resolve heap key with
      | error f => simp [runFunction, hgraph, bind, Except.bind] at hr
      | ok graph =>
        rw [runFunction_of_resolve hgraph, if_neg (Nat.succ_ne_zero depth)] at hr
        split at hr
        · cases hr
        · obtain rfl := Except.ok.inj hr
          exact run_in hR hgraphs hanswers notices hheap hargs hgraph
    · intro room key args heap notices hheap hargs
      cases hgraph : l.resolve heap key with
      | error f => simp [runFunction, ← hresolve heap key hheap, hgraph, bind, Except.bind]
      | ok graph =>
        have hgraph' : l'.resolve heap key = .ok graph := by rw [← hresolve heap key hheap, hgraph]
        have hrun := run_alike hR hgraphs hanswers halike (room - callLevels) notices hheap hargs
          hgraph
        rw [runFunction_of_resolve hgraph, runFunction_of_resolve hgraph', calleeSetup, calleeSetup,
          hsettings, Nat.add_sub_cancel, hrun]

/-- A host that runs instructions with values of the realm cannot tell such libraries apart. -/
theorem runNamed_alike (hsettings : l'.settings = l.settings)
    (hresolve : ∀ h key, R.heap h → l.resolve h key = l'.resolve h key)
    {instructions : List Instruction} (hi : ∀ i ∈ instructions, i.In R) {args : List Value}
    (hargs : ∀ v ∈ args, R.value v) {heap : Heap} (hheap : R.heap heap) (functionScope : Bool)
    (cancelAfter : Option Nat) (parameters : List Value) (notices : Array Diagnostic) :
    let s := l.setup instructions functionScope cancelAfter
    let s' := l'.setup instructions functionScope cancelAfter
    s.runNamed parameters args (s.start heap notices) =
      s'.runNamed parameters args (s'.start heap notices) := by
  intro s s'
  obtain ⟨hanswers, halike⟩ :=
    runFunction_alike hR hgraphs hsettings hresolve l.settings.maxCallDepth
  have hcalling : s.calling (l'.runFunction l.settings.maxCallDepth) = s' := by
    simp only [s, s', setup, hsettings]
    rfl
  have hstart : s'.start heap notices = s.start heap notices := rfl
  rw [Setup.runNamed_apply, Setup.runNamed_apply, hstart]
  have hbound := goesOn_bindNamed parameters hargs _ (start_in (s := s) hheap notices)
  cases hb : Context.bindNamed parameters args (s.start heap notices) with
  | error f c => rfl
  | ok _ c =>
    rw [hb] at hbound
    have hrun : s.runFrom c = s'.runFrom c := by
      rw [← hcalling]
      exact Setup.runFrom_calling hR hanswers rfl halike (instruction_in hi) hbound.1
    dsimp only
    rw [hrun]

end Library

end NodeScript
