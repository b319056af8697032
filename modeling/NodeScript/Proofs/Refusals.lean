import NodeScript.Proofs.LeafFrame

/-!
Error records mean that nothing has changed. A leaf comes to its effect only after all that it may
refuse, and a refusal is an effect that does nothing but report it. So whenever evaluating a leaf
ends in an error record, the variables and the tables are as before. The one leaf for which this
fails is the look-up in a table, which reports a bad key and all the same sets its result to the
default.
-/

namespace NodeScript

variable {α β : Type}

/-- The record reports an error. -/
def Record.IsError (r : Record) : Prop :=
  r.lookup "status" = some (.text "error")

theorem Record.not_isError_of_status {r : Record} {s : String}
    (h : r.lookup "status" = some (.text s)) (hs : s ≠ "error") : ¬ r.IsError := by
  intro herror
  have heq : Field.value (.text s) = Field.value (.text "error") :=
    Option.some.inj (h.symm.trans herror)
  exact hs (Value.text.inj (Field.value.inj heq))

theorem Record.not_isError_of_none {r : Record} (h : r.lookup "status" = none) : ¬ r.IsError := by
  intro herror
  cases h.symm.trans herror

/-! ### Effects -/

/-- An effect that reports an error does nothing else, and the entry that it makes by itself reports
none. -/
structure Effect.Honest (e : Effect) : Prop where
  quiet : ∀ r, e.output = some r → r.IsError → e.binding = none ∧ e.write = none
  entry : ∀ r, e.entry = some r → ¬ r.IsError

namespace Effect.Honest

variable {e : Effect} {r : Record}

theorem refusal (scope : Scope) (action message : String) (extra : Record) :
    (Effect.refusal scope action message extra).Honest :=
  ⟨fun _ _ _ => ⟨rfl, rfl⟩, nofun⟩

theorem of_output (ho : e.output = some r) (hr : ¬ r.IsError) (he : e.entry = none) : e.Honest where
  quiet r' ho' hr' := by
    obtain rfl := Option.some.inj (ho.symm.trans ho')
    exact absurd hr' hr
  entry r' he' := by simp [he] at he'

/-- An effect with a status other than an error. -/
theorem of_status {s : String} (ho : e.output = some r) (h : r.lookup "status" = some (.text s))
    (hs : s ≠ "error") (he : e.entry = none) : e.Honest :=
  of_output ho (Record.not_isError_of_status h hs) he

/-- An effect without a status. -/
theorem of_none (ho : e.output = some r) (h : r.lookup "status" = none) (he : e.entry = none) :
    e.Honest :=
  of_output ho (Record.not_isError_of_none h) he

/-- An effect that only makes an entry by itself. -/
theorem of_entry (he : e.entry = some r) (h : r.lookup "status" = none) (ho : e.output = none) :
    e.Honest where
  quiet r' ho' := by simp [ho] at ho'
  entry r' he' := by
    obtain rfl := Option.some.inj (he.symm.trans he')
    exact Record.not_isError_of_none h

end Effect.Honest

/-! ### Evaluation -/

theorem Eval.lift_apply (e : Except Fault α) (d : Draft) :
    Eval.lift e d =
      match e with
      | .ok a => .ok a d
      | .error f => .error f d := by
  cases e <;> rfl

theorem Eval.ask_apply (f : Heap → Nat → Except Fault α) (d : Draft) :
    Eval.ask f d =
      match f d.heap d.room with
      | .ok a => .ok a d
      | .error e => .error e d :=
  Eval.lift_apply (f d.heap d.room) d

/-- Whatever an evaluation gives has some property. -/
def Eval.Gives (Q : α → Prop) (x : Eval α) : Prop :=
  ∀ d a d', x d = .ok a d' → Q a

namespace Eval.Gives

variable {P : α → Prop} {Q : β → Prop}

theorem pure {a : α} (ha : P a) : Eval.Gives P (Pure.pure a) := by
  rintro d _ _ ⟨⟩
  exact ha

theorem bind {x : Eval α} {f : α → Eval β} (hx : x.Gives P) (hf : ∀ a, P a → (f a).Gives Q) :
    (x >>= f).Gives Q := by
  intro d b d' h
  simp only [Bind.bind, EStateM.bind] at h
  cases hr : x d with
  | error e d₁ => simp [hr] at h
  | ok a d₁ =>
    rw [hr] at h
    exact hf a (hx d a d₁ hr) d₁ b d' h

/-- A first part whose result does not matter. -/
theorem andThen {x : Eval α} {f : α → Eval β} (hf : ∀ a, (f a).Gives Q) : (x >>= f).Gives Q :=
  bind (P := fun _ => True) (fun _ _ _ _ => trivial) fun a _ => hf a

theorem ask {f : Heap → Nat → Except Fault α} (hf : ∀ h room a, f h room = .ok a → P a) :
    (Eval.ask f).Gives P := by
  intro d a d' h
  rw [Eval.ask_apply] at h
  cases hr : f d.heap d.room with
  | error e =>
    rw [hr] at h
    cases h
  | ok b =>
    rw [hr] at h
    cases h
    exact hf _ _ _ hr

end Eval.Gives

/-! ### Leaves -/

namespace Leaf

variable {scope : Scope}

theorem honest_refusal {action message : String} {extra : Record} :
    Eval.Gives Effect.Honest (pure (.refusal scope action message extra)) :=
  .pure (.refusal scope action message extra)

theorem honest_setVariable (c : SetVariable) : (c.eval scope).Gives Effect.Honest := by
  unfold SetVariable.eval
  split
  · exact honest_refusal
  · exact .andThen fun v => .pure (.of_none rfl rfl rfl)

theorem honest_arithmetic (c : Arithmetic) : (c.eval scope).Gives Effect.Honest := by
  refine .andThen fun a => .andThen fun b => .andThen fun result => ?_
  dsimp only
  split
  · refine .andThen fun n => .bind (P := fun p => p.2 ≠ "error")
      (.pure (show "success" ≠ "error" by decide)) ?_
    exact fun p hp => .pure (.of_status rfl rfl hp rfl)
  · refine .andThen fun _ => .bind (P := fun p => p.2 ≠ "error") (.pure (by decide)) ?_
    exact fun p hp => .pure (.of_status rfl rfl hp rfl)

theorem honest_wait (c : Wait) : (c.eval scope).Gives Effect.Honest := by
  refine .andThen fun v => ?_
  dsimp only
  split
  · exact .andThen fun n => .pure (.of_none rfl rfl rfl)
  · exact .andThen fun shown => .andThen fun _ => .andThen fun n => .pure (.of_none rfl rfl rfl)

theorem honest_withInput (c : Conversion) (action : String) {go : String → Value → Eval Effect}
    (hgo : ∀ result v, (go result v).Gives Effect.Honest) :
    (c.withInput action scope go).Gives Effect.Honest := by
  refine .andThen fun input => ?_
  split
  · exact honest_refusal
  · exact hgo _ _

theorem honest_toNumber (c : Conversion) : (c.toNumber scope).Gives Effect.Honest := by
  refine honest_withInput c _ fun result v => .andThen fun base => ?_
  dsimp only
  split
  · refine .andThen fun v => ?_
    exact .andThen fun n => .pure (.of_status rfl rfl (by decide) rfl)
  · refine .andThen fun s => .andThen fun v => ?_
    exact .andThen fun n => .pure (.of_status rfl rfl (by decide) rfl)
  · refine .andThen fun v => ?_
    exact .andThen fun n => .pure (.of_status rfl rfl (by decide) rfl)

theorem honest_makeVector (c : MakeVector) : (c.eval scope).Gives Effect.Honest := by
  unfold MakeVector.eval
  split
  · exact honest_refusal
  · refine .andThen fun v => ?_
    split
    · exact honest_refusal
    · exact .pure (.of_status rfl rfl (by decide) rfl)

theorem honest_formatText (c : FormatText) : (c.eval scope).Gives Effect.Honest := by
  unfold FormatText.eval
  split
  · exact honest_refusal
  · refine .andThen fun args => .andThen fun filled => ?_
    dsimp only
    split
    · exact .andThen fun _ => .pure (.of_status rfl rfl (by decide) rfl)
    · exact .pure (.of_status rfl rfl (by decide) rfl)

theorem honest_textLength (c : TextLength) : (c.eval scope).Gives Effect.Honest := by
  unfold TextLength.eval
  split
  · exact honest_refusal
  · dsimp only
    split
    · exact .andThen fun _ => .pure (.of_none rfl rfl rfl)
    · exact honest_refusal

theorem honest_createTable (c : CreateTable) : (c.eval scope).Gives Effect.Honest := by
  have hsuccess (name : String) (v : Value) : (CreateTable.eval.success name v).Honest :=
    .of_status rfl rfl (by decide) rfl
  unfold CreateTable.eval
  split
  · exact honest_refusal
  · refine .andThen fun v => ?_
    split
    · exact .pure (hsuccess _ _)
    · exact .andThen fun _ => .pure (hsuccess _ _)
    · exact .andThen fun _ => honest_refusal

theorem honest_setTableValue (c : SetTableValue) : (c.eval scope).Gives Effect.Honest := by
  unfold SetTableValue.eval
  split
  · exact honest_refusal
  · split
    · -- The key, the value and the bounds may each be refused; the write is behind all three.
      refine .andThen fun key => ?_
      split
      · exact honest_refusal
      · refine .andThen fun v => ?_
        split
        · exact honest_refusal
        · refine .andThen fun d => .andThen fun changed => ?_
          split
          · exact .andThen fun _ => honest_refusal
          · exact .pure (.of_status rfl rfl (by decide) rfl)
    · exact honest_refusal

theorem honest_insertIntoTable (c : InsertIntoTable) : (c.eval scope).Gives Effect.Honest := by
  unfold InsertIntoTable.eval
  split
  · exact honest_refusal
  · refine .andThen fun table? => ?_
    split
    · refine .andThen fun v => ?_
      split
      · exact honest_refusal
      · exact .pure (.of_status rfl rfl (by decide) rfl)
    · exact honest_refusal

theorem measure_status_ne (name : String) (t? : Option Table) :
    (GetTableLength.measure name t?).2.1 ≠ "error" := by
  unfold GetTableLength.measure
  split <;> dsimp only <;> decide

theorem honest_getTableLength (c : GetTableLength) : (c.eval scope).Gives Effect.Honest := by
  unfold GetTableLength.eval
  split
  · exact honest_refusal
  · exact honest_refusal
  · exact .andThen fun table? => .pure (.of_status rfl rfl (measure_status_ne _ _) rfl)

theorem honest_serverEvent (c : ServerEvent) : (c.eval scope).Gives Effect.Honest := by
  unfold ServerEvent.eval
  split
  · exact honest_refusal
  · refine .andThen fun args => .bind (P := fun r : Record => r.lookup "status" = none) ?_ ?_
    · refine .ask fun h room r hr => ?_
      obtain ⟨shown, -, hr⟩ := Serial.exists_of_bind hr
      obtain rfl := Except.ok.inj hr
      rfl
    · exact fun r hr => .pure (.of_entry rfl hr rfl)

theorem honest_clientEvent (c : ClientEvent) : (c.eval scope).Gives Effect.Honest := by
  unfold ClientEvent.eval
  split
  · exact honest_refusal
  · refine .andThen fun args => .andThen fun target =>
      .bind (P := fun r : Record => r.lookup "status" = none) ?_ ?_
    · refine .ask fun h room r hr => ?_
      obtain ⟨shownTarget, -, hr⟩ := Serial.exists_of_bind hr
      obtain ⟨shown, -, hr⟩ := Serial.exists_of_bind hr
      obtain rfl := Except.ok.inj hr
      rfl
    · exact fun r hr => .pure (.of_entry rfl hr rfl)

/-- Every leaf but the look-up in a table is done with refusing before it changes anything. -/
theorem honest (l : Leaf) (hl : ∀ c, l ≠ .getTableValue c) :
    (l.eval scope).Gives Effect.Honest := by
  cases l with
  | setVariable c => exact honest_setVariable c
  | readVariable c => exact .andThen fun v => .pure (.of_none rfl rfl rfl)
  | print c => exact .andThen fun p => .pure (.of_none rfl rfl rfl)
  | arithmetic c => exact honest_arithmetic c
  | wait c => exact honest_wait c
  | typeCheck c =>
    exact honest_withInput c _ fun result v => .pure (.of_status rfl rfl (by decide) rfl)
  | toText c =>
    exact honest_withInput c _ fun result v =>
      .andThen fun s => .pure (.of_status rfl rfl (by decide) rfl)
  | toNumber c => exact honest_toNumber c
  | makeVector c => exact honest_makeVector c
  | concatenate c => exact .andThen fun s => .andThen fun t => .pure (.of_none rfl rfl rfl)
  | formatText c => exact honest_formatText c
  | textLength c => exact honest_textLength c
  | createTable c => exact honest_createTable c
  | setTableValue c => exact honest_setTableValue c
  | getTableValue c => exact absurd rfl (hl c)
  | insertIntoTable c => exact honest_insertIntoTable c
  | getTableLength c => exact honest_getTableLength c
  | serverEvent c => exact honest_serverEvent c
  | clientEvent c => exact honest_clientEvent c

theorem ne_getTableValue_of_decoder {h : Heap} {kind : LeafKind} {fields : Fields} {l : Leaf}
    (hl : decoder h kind fields = .valid l) (hkind : kind ≠ .getTableValue) (c : GetTableValue) :
    l ≠ .getTableValue c := by
  cases kind with
  | getTableValue => exact absurd rfl hkind
  | _ =>
    obtain ⟨c, -, rfl⟩ := Checked.exists_of_map hl
    nofun

end Leaf

/-! ### Instructions -/

namespace Context

variable {c : Context} {e : Effect}

theorem bindings_commit (hb : e.binding = none) : (c.commit e).bindings = c.bindings := by
  obtain ⟨binding, write, entry, output⟩ := e
  obtain rfl : binding = none := hb
  cases write <;> cases entry <;> rfl

theorem heap_commit (hw : e.write = none) : (c.commit e).heap = c.heap := by
  obtain ⟨binding, write, entry, output⟩ := e
  obtain rfl : write = none := hw
  cases binding <;> cases entry <;> rfl

theorem results_commit (c : Context) (e : Effect) :
    (c.commit e).results = (e.entry.map fun r => c.results.push (.record r)).getD c.results := by
  obtain ⟨binding, write, entry, output⟩ := e
  cases binding <;> cases write <;> cases entry <;> rfl

end Context

namespace Instruction

variable {i : Instruction} {kind : LeafKind} {start : String} {caller : Caller} {c c' : Context}

/-- Evaluating the instruction ends in an error record. It is the reply or, if the configuration is
refused, it is in the log already. -/
def EndsInError (i : Instruction) (start : String) (caller : Caller) (c c' : Context) : Prop :=
  ∃ reply, i.evaluate start caller c = .ok reply c' ∧ ∃ r : Record, r.IsError ∧
    (reply = .record r ∨ c'.results = c.results.push (.record r))

/-- Of an effect that ends in an error record nothing comes but the record. -/
theorem quiet_of_error {e : Effect} (he : e.Honest) {r : Record} (hr : r.IsError)
    (h : (e.output.map Reply.record).getD .nothing = .record r ∨
      (c.commit e).results = c.results.push (.record r)) :
    e.binding = none ∧ e.write = none := by
  obtain hreply | hlog := h
  · cases ho : e.output with
    | none => simp [ho] at hreply
    | some r' =>
      obtain rfl : r' = r := by simpa [ho] using hreply
      exact he.quiet r' ho hr
  · rw [Context.results_commit] at hlog
    cases hentry : e.entry with
    | none =>
      have hsize := congrArg Array.size hlog
      simp [hentry] at hsize
    | some r' =>
      rw [hentry] at hlog
      obtain rfl := Entry.record.inj (Array.push_inj_right.1 hlog)
      exact absurd hr (he.entry r' hentry)

theorem honest_of_evaluate {l : Leaf} (hl : ∀ g, l ≠ .getTableValue g) {e : Effect}
    (h : Exec.evaluate l.eval c = .ok e c') : e.Honest := by
  rw [Context.evaluate_apply] at h
  cases hd : l.eval c.scope { heap := c.heap, room := c.room } with
  | error f d =>
    rw [hd] at h
    cases h
  | ok e' d =>
    rw [hd] at h
    cases h
    exact l.honest hl _ _ _ hd

/-- Error records mean that nothing has changed. If evaluating a leaf other than the look-up in a
table, with any configuration and in any state, ends in an error record, then all variables and all
tables are as before. -/
theorem errors_change_nothing (hi : LeafKind.ofTag? i.tag = some kind)
    (hkind : kind ≠ .getTableValue) (h : i.EndsInError start caller c c') :
    c'.bindings = c.bindings ∧ ∀ a < c.heap.size, c'.heap.get a = c.heap.get a := by
  obtain ⟨reply, hrun, r, hr, hends⟩ := h
  rw [evaluate_of_leaf hi] at hrun
  cases hl : Leaf.decoder c.heap kind i.config.get? with
  | invalid problems =>
    rw [hl] at hrun
    cases hrun
    exact ⟨rfl, fun _ _ => rfl⟩
  | valid l =>
    rw [hl] at hrun
    replace hrun := (Handler.run_leaf l start caller c).symm.trans hrun
    have hamends := l.amends_evaluate c
    cases heval : Exec.evaluate l.eval c with
    | error f c₁ =>
      rw [heval] at hrun
      cases hrun
    | ok e c₁ =>
      rw [heval] at hrun
      cases hrun
      rw [Exec.after, heval] at hamends
      have hbindings : c₁.bindings = c.bindings := by rw [Exec.evaluated_of_ok heval]
      have hresults : c₁.results = c.results := by rw [Exec.evaluated_of_ok heval]
      rw [← hresults] at hends
      obtain ⟨hbinding, hwrite⟩ := quiet_of_error
        (honest_of_evaluate (Leaf.ne_getTableValue_of_decoder hl hkind) heval) hr hends
      rw [Context.bindings_commit hbinding, Context.heap_commit hwrite]
      exact ⟨hbindings, fun a ha => hamends.tables a ha (by simp)⟩

/-- Writes an item behind the end of an array. -/
def writingBeyond : Instruction where
  tag := "setTableValue"
  config := .ofList [("tableVariable", .text "t"), ("keyType", .text "number_literal"),
    ("keyValue", .int 3), ("valueSource", .text "'[7]'")]

/-- A write whose table is named by a number, so that its configuration is refused. -/
def writingNowhere : Instruction where
  tag := "setTableValue"
  config := .ofList [("tableVariable", .int 5)]

/-- Neither a key out of bounds, for which a table has been made already, nor a configuration that
is refused changes what is there. -/
theorem writingBeyond_changes_nothing :
    let caller := Library.asCaller Library.unanswered
    let beyond := (writingBeyond.evaluate "" caller).after holdingFirst
    let nowhere := (writingNowhere.evaluate "" caller).after holdingFirst
    (writingBeyond.EndsInError "" caller holdingFirst beyond ∧
      beyond.heap.size = 3 ∧ beyond.bindings = holdingFirst.bindings ∧
      ∀ a < holdingFirst.heap.size, beyond.heap.get a = holdingFirst.heap.get a) ∧
    writingNowhere.EndsInError "" caller holdingFirst nowhere ∧
      nowhere.bindings = holdingFirst.bindings ∧
      ∀ a < holdingFirst.heap.size, nowhere.heap.get a = holdingFirst.heap.get a := by
  intro caller beyond nowhere
  have hbeyond : writingBeyond.EndsInError "" caller holdingFirst beyond := by
    refine ⟨_, rfl, _, ?_, .inl rfl⟩
    rfl
  have hnowhere : writingNowhere.EndsInError "" caller holdingFirst nowhere := by
    refine ⟨_, rfl, _, ?_, .inr rfl⟩
    rfl
  have hkind : LeafKind.setTableValue ≠ .getTableValue := nofun
  exact ⟨⟨hbeyond, by decide +kernel, errors_change_nothing rfl hkind hbeyond⟩, hnowhere,
    errors_change_nothing rfl hkind hnowhere⟩

end Instruction

end NodeScript
