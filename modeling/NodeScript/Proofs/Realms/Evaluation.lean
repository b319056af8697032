import NodeScript.Proofs.Configurations
import NodeScript.Proofs.Limits.Evaluation

/-!
Realms: heaps of some sort, with the values that a script may hold in them. Out of such values
evaluation makes nothing but such values, and of such heaps nothing but such heaps; so a table that
is outside of a realm stays out of its reach.
-/

namespace NodeScript

variable {α β : Type}

/-- Heaps of some sort and the values that may be held in them. Only tables may be out of reach, and
with a table that may be held goes all that it contains. What is made anew is within the realm. -/
structure Realm where
  heap : Heap → Prop
  value : Value → Prop
  plain {v : Value} : (∀ a, v ≠ .table a) → value v
  inside {h : Heap} {a : Address} : heap h → value (.table a) → ∀ v ∈ (h.get a).values, value v
  alloc {h : Heap} {t : Table} : heap h → (∀ v ∈ t.values, value v) →
    heap (h.alloc t).2 ∧ value (.table (h.alloc t).1)
  mark {h : Heap} (n : Number) : heap h → heap (h.mark n).2
  store {h : Heap} (t : Tree) : heap h → heap (h.store t).2 ∧ value (h.store t).1

/-- An effect that puts only such values where they may be held. -/
structure Effect.In (R : Realm) (e : Effect) : Prop where
  binding : ∀ name v, e.binding = some (name, v) → R.value v
  write : ∀ a t, e.write = some (a, t) → R.value (.table a) ∧ ∀ v ∈ t.values, R.value v

/-- Variables that hold only such values. -/
def Scope.In (R : Realm) (s : Scope) : Prop :=
  ∀ name v, s.bindings.get? name = some v → R.value v

namespace Realm

variable {R : Realm} {Q : α → Prop} {P : β → Prop} {h : Heap} {scope : Scope}

/-- From heaps of the realm the evaluation leads to heaps of the realm, and to a result with some
property or to a fault. -/
def Keeps (R : Realm) (Q : α → Prop) (x : Eval α) : Prop :=
  ∀ d : Draft, R.heap d.heap →
    match x d with
    | .ok a d' => R.heap d'.heap ∧ Q a
    | .error _ d' => R.heap d'.heap

/-- The same without any claim about the result. -/
abbrev Stays (R : Realm) (x : Eval α) : Prop :=
  R.Keeps (fun _ => True) x

/-- The evaluation comes to an effect within the realm. -/
abbrev Acts (R : Realm) (x : Eval Effect) : Prop :=
  R.Keeps (fun e => e.In R) x

theorem inherits (R : Realm) (hh : R.heap h) : h.Inherits R.value where
  nil := R.plain nofun
  emptyText := R.plain nofun
  word _ _ := R.plain nofun
  inside _ v ha hv := R.inside hh ha v hv

/-! ### Computations -/

namespace Keeps

theorem pure {a : α} (ha : Q a) : R.Keeps Q (Pure.pure a : Eval α) :=
  fun _ hd => ⟨hd, ha⟩

theorem bind {x : Eval α} {f : α → Eval β} (hx : R.Keeps Q x) (hf : ∀ a, Q a → R.Keeps P (f a)) :
    R.Keeps P (x >>= f) := by
  intro d hd
  have hr := hx d hd
  simp only [Bind.bind, EStateM.bind]
  generalize x d = r at hr
  cases r with
  | error e d' => exact hr
  | ok a d' => exact hf a hr.2 d' hr.1

/-- A first part whose result does not matter. -/
theorem andThen {x : Eval α} {f : α → Eval β} (hx : R.Stays x) (hf : ∀ a, R.Keeps P (f a)) :
    R.Keeps P (x >>= f) :=
  bind hx fun a _ => hf a

theorem quiet {e : Effect} (hb : e.binding = none) (hw : e.write = none) :
    R.Acts (Pure.pure e) :=
  pure ⟨fun _ _ hr => by simp [hb] at hr, fun _ _ hr => by simp [hw] at hr⟩

theorem binding {e : Effect} {name : String} {v : Value} (hb : e.binding = some (name, v))
    (hw : e.write = none) (hv : R.value v) : R.Acts (Pure.pure e) := by
  refine pure ⟨fun name' v' hr => ?_, fun _ _ hr => by simp [hw] at hr⟩
  obtain ⟨-, rfl⟩ := Prod.mk.inj (Option.some.inj (hb.symm.trans hr))
  exact hv

theorem writing {e : Effect} {a : Address} {t : Table} (hb : e.binding = none)
    (hw : e.write = some (a, t)) (ha : R.value (.table a)) (ht : ∀ v ∈ t.values, R.value v) :
    R.Acts (Pure.pure e) := by
  refine pure ⟨fun _ _ hr => by simp [hb] at hr, fun a' t' hr => ?_⟩
  obtain ⟨rfl, rfl⟩ := Prod.mk.inj (Option.some.inj (hw.symm.trans hr))
  exact ⟨ha, ht⟩

end Keeps

theorem keeps_lift {e : Except Fault α} (he : ∀ a, e = .ok a → Q a) : R.Keeps Q (Eval.lift e) := by
  cases e with
  | ok a => exact .pure (he a rfl)
  | error f => exact fun _ hd => hd

theorem stays_lift (e : Except Fault α) : R.Stays (Eval.lift e) :=
  keeps_lift fun _ _ => trivial

theorem stays_ask (f : Heap → Nat → Except Fault α) : R.Stays (Eval.ask f) :=
  fun d hd => stays_lift (f d.heap d.room) d hd

theorem stays_warn (message : String) : R.Stays (Eval.warn message) :=
  fun _ hd => ⟨hd, trivial⟩

theorem stays_kindName (v : Value) : R.Stays (Eval.kindName v) :=
  fun _ hd => ⟨hd, trivial⟩

theorem keeps_get : R.Keeps (fun d => R.heap d.heap) (get : Eval Draft) :=
  fun _ hd => ⟨hd, hd⟩

/-- A table that is held, and what it contains. -/
theorem keeps_table? {v : Value} (hv : R.value v) :
    R.Keeps (fun r => ∀ a t, r = some (a, t) → R.value (.table a) ∧ ∀ w ∈ t.values, R.value w)
      (Eval.table? v) := by
  cases v with
  | table a =>
    refine fun d hd => ⟨hd, fun b t hr => ?_⟩
    cases hr
    exact ⟨hv, R.inside hd hv⟩
  | _ => exact .pure fun _ _ hr => nomatch hr

theorem keeps_alloc {t : Table} (ht : ∀ v ∈ t.values, R.value v) :
    R.Keeps R.value (Eval.alloc t) :=
  fun _ hd => R.alloc hd ht

theorem stays_newNumber (n : Number) : R.Stays (Eval.newNumber n) :=
  fun _ hd => ⟨R.mark n hd, trivial⟩

theorem stays_toNumber? (v : Value) : R.Stays (Eval.toNumber? v) := by
  unfold Eval.toNumber?
  cases v.toNumber? with
  | none => exact .pure trivial
  | some n => exact .andThen (stays_newNumber n) fun _ => .pure trivial

theorem keeps_literal {v : Value} (hv : R.value v) : R.Keeps R.value (Eval.literal v) := by
  intro d hd
  rw [Eval.literal_apply]
  cases v with
  | text s =>
    cases hr : Literal.read d.room s with
    | error f =>
      simp only [Heap.literal, hr]
      exact hd
    | ok t =>
      simp only [Heap.literal, hr]
      exact R.store t hd
  | _ => exact ⟨hd, hv⟩

/-! ### Operands -/

theorem value_get (hs : scope.In R) (name : String) {absent : Value} (ha : R.value absent) :
    R.value (scope.get name absent) := by
  unfold Scope.get
  cases hv : scope.bindings.get? name with
  | none => exact ha
  | some v => exact hs name v hv

theorem value_get_nil (hs : scope.In R) (name : String) : R.value (scope.get name) :=
  value_get hs name (R.plain nofun)

theorem keeps_readOperand (hs : scope.In R) (useVariable : Bool) (name : Option String)
    {given absent : Value} (hgiven : R.value given) (ha : R.value absent) :
    R.Keeps R.value (readOperand scope useVariable name given absent) := by
  unfold readOperand
  split
  · exact .pure (value_get hs _ ha)
  · exact keeps_literal hgiven

theorem keeps_resolve (hs : scope.In R) {s : Source} (hv : R.value s.value) :
    R.Keeps R.value (s.resolve scope) := by
  unfold Source.resolve
  split
  · exact .pure (value_get_nil hs _)
  · refine .andThen (stays_kindName _) fun kind => ?_
    exact .andThen (stays_warn _) fun _ => .pure (R.plain nofun)
  · exact keeps_literal hv

theorem keeps_resolveAll (hs : scope.In R) {sources : List Source}
    (hsources : ∀ s ∈ sources, R.value s.value) :
    R.Keeps (fun vs => ∀ v ∈ vs, R.value v) (Source.resolveAll scope sources) := by
  induction sources with
  | nil => exact .pure nofun
  | cons s rest ih =>
    obtain ⟨hhead, htail⟩ := List.forall_mem_cons.1 hsources
    refine .bind (keeps_resolve hs hhead) fun v hv => ?_
    exact .bind (ih htail) fun vs hvs => .pure (List.forall_mem_cons.2 ⟨hv, hvs⟩)

theorem keeps_headerOperand (hs : scope.In R) (kind : SourceKind) {given absent : Value}
    (hgiven : R.value given) (ha : R.value absent) :
    R.Keeps R.value (headerOperand scope kind given absent) := by
  unfold headerOperand
  split
  · exact .pure (value_get hs _ ha)
  · exact .pure (value_get hs _ ha)
  · exact keeps_literal hgiven

/-! ### Arithmetic and waiting -/

theorem stays_operand (hs : scope.In R) (useVariable : Bool) (name : Option String) {given : Value}
    (hgiven : R.value given) :
    R.Stays (Arithmetic.operand scope useVariable name given) := by
  refine .bind (keeps_readOperand hs useVariable name hgiven (R.plain nofun)) fun v _ => ?_
  split
  · exact .pure trivial
  · exact .andThen (stays_ask _) fun _ => .andThen (stays_warn _) fun _ => .pure trivial

theorem acts_arithmetic (hs : scope.In R) {c : Arithmetic} (h1 : R.value c.value1)
    (h2 : R.value c.value2) : R.Acts (c.eval scope) := by
  refine .andThen (stays_operand hs _ _ h1) fun a => ?_
  refine .andThen (stays_operand hs _ _ h2) fun b => ?_
  refine .andThen (stays_lift _) fun result => ?_
  cases result with
  | number n => exact .andThen (stays_newNumber n) fun _ => .binding rfl rfl (R.plain nofun)
  | undefined reason => exact .andThen (stays_warn _) fun _ => .binding rfl rfl (R.plain nofun)

theorem acts_wait (hs : scope.In R) {c : Wait} (hc : R.value c.duration) :
    R.Acts (c.eval scope) := by
  refine .bind (keeps_readOperand hs _ _ hc (R.plain nofun)) fun v _ => ?_
  dsimp only
  split
  · exact .quiet rfl rfl
  · exact .andThen (stays_ask _) fun _ => .andThen (stays_warn _) fun _ => .quiet rfl rfl

/-! ### Variables -/

theorem keeps_newValue (hs : scope.In R) {c : SetVariable} (hc : R.value c.value) (name : String) :
    R.Keeps R.value (c.newValue name scope) := by
  unfold SetVariable.newValue
  split
  · refine .andThen (stays_toNumber? _) fun n? => ?_
    split
    · exact .pure (R.plain nofun)
    · refine .andThen (stays_ask _) fun shown => ?_
      exact .andThen (stays_warn _) fun _ => .pure (R.plain nofun)
  · split
    · exact .pure (R.plain nofun)
    · exact .andThen (stays_ask _) fun _ => .pure (R.plain nofun)
  · exact .pure (R.plain nofun)
  · exact .andThen (stays_ask _) fun shown => .pure (value_get_nil hs shown)
  · exact keeps_literal hc
  · split
    · exact .pure (R.plain nofun)
    · exact .andThen (stays_ask _) fun _ => .pure (R.plain nofun)

theorem acts_setVariable (hs : scope.In R) {c : SetVariable} (hc : R.value c.value) :
    R.Acts (c.eval scope) := by
  unfold SetVariable.eval
  split
  · exact .quiet rfl rfl
  · exact .bind (keeps_newValue hs hc _) fun v hv => .binding rfl rfl hv

theorem acts_readVariable (hs : scope.In R) {c : ReadVariable} (hc : R.value c.defaultValue) :
    R.Acts (c.eval scope) := by
  refine .bind (keeps_literal hc) fun absent ha => .pure ⟨fun name v hr => ?_, nofun⟩
  obtain ⟨_, -, ⟨⟩⟩ := Option.map_eq_some_iff.1 hr
  exact value_get hs _ ha

theorem acts_print (c : Print) : R.Acts (c.eval scope) := by
  have hmessage : R.Stays (c.message? scope) := by
    unfold Print.message?
    split
    · dsimp only
      split
      · exact .andThen (stays_ask _) fun _ => .pure trivial
      · exact .pure trivial
    · split
      · exact .pure trivial
      · exact .andThen (stays_ask _) fun _ => .pure trivial
  exact .andThen hmessage fun _ => .quiet rfl rfl

/-! ### Conversions and vectors -/

theorem acts_withInput {c : Conversion} (hc : R.value c.inputValue) (action : String)
    {go : String → Value → Eval Effect} (hgo : ∀ name v, R.Acts (go name v)) :
    R.Acts (c.withInput action scope go) := by
  have hinput : R.Stays (c.input scope) := by
    unfold Conversion.input
    split
    · exact .pure trivial
    · split
      · split <;> exact .pure trivial
      · exact .bind (keeps_literal hc) fun _ _ => .pure trivial
  refine .andThen hinput fun r => ?_
  match r with
  | .error message => exact .quiet rfl rfl
  | .ok (name, v) => exact hgo name v

theorem acts_typeCheck {c : Conversion} (hc : R.value c.inputValue) :
    R.Acts (c.typeCheck scope) :=
  acts_withInput hc _ fun _ _ => .binding rfl rfl (R.plain nofun)

theorem acts_toText {c : Conversion} (hc : R.value c.inputValue) :
    R.Acts (c.toText scope) :=
  acts_withInput hc _ fun _ _ =>
    .andThen (stays_ask _) fun _ => .binding rfl rfl (R.plain nofun)

theorem stays_usedBase (c : Conversion) : R.Stays c.usedBase := by
  have hignore (base : Base) : R.Stays (Conversion.usedBase.ignore base) :=
    .andThen (stays_lift _) fun _ => .andThen (stays_warn _) fun _ => .pure trivial
  unfold Conversion.usedBase
  split
  · exact .pure trivial
  · refine .andThen (stays_lift _) fun _ => ?_
    split
    · split
      · exact .pure trivial
      · exact hignore _
    · exact hignore _

theorem value_ofOption (n? : Option Number) : R.value (.ofOption (n?.map .number)) := by
  cases n? <;> exact R.plain nofun

theorem acts_toNumber {c : Conversion} (hc : R.value c.inputValue) :
    R.Acts (c.toNumber scope) := by
  refine acts_withInput hc _ fun _ v => .andThen (stays_usedBase c) fun base => ?_
  cases base with
  | none =>
    change R.Acts (do let number? ← Eval.toNumber? v; pure _)
    exact .andThen (stays_toNumber? v) fun n? => .binding rfl rfl (value_ofOption n?)
  | some base =>
    cases v with
    | text s => exact .binding rfl rfl (value_ofOption _)
    | _ => exact .andThen (stays_ask _) fun _ => .binding rfl rfl (value_ofOption _)

theorem stays_coordinate (axis : String) (useVariable : Bool) {source : Value}
    (hsource : R.value source) :
    R.Stays (MakeVector.coordinate scope axis useVariable source) := by
  have hzero : R.Stays (do
      let shown ← Eval.display source
      Eval.warn s!"Vector3 {axis} coordinate {shown} is not a number. Using 0."
      return .ok (.int 0) : Eval (Except String Number)) :=
    .andThen (stays_ask _) fun _ => .andThen (stays_warn _) fun _ => .pure trivial
  unfold MakeVector.coordinate
  cases useVariable with
  | false =>
    simp only [pure_bind]
    refine .bind (keeps_literal hsource) fun v _ => .andThen (stays_toNumber? v) fun n? => ?_
    cases n? with
    | some n => exact .pure trivial
    | none => exact hzero
  | true =>
    cases validNameOf? source with
    | none =>
      simp only [pure_bind]
      exact .andThen (stays_ask _) fun _ => .pure trivial
    | some name =>
      simp only [pure_bind]
      refine .andThen (stays_toNumber? (scope.get name)) fun n? => ?_
      cases n? with
      | some n => exact .pure trivial
      | none => exact hzero

theorem acts_makeVector {c : MakeVector} (hx : R.value c.x) (hy : R.value c.y)
    (hz : R.value c.z) : R.Acts (c.eval scope) := by
  have hvector : R.Stays (c.vector scope) := by
    refine .andThen (stays_coordinate "X" _ hx) fun x => ?_
    cases x with
    | error message => exact .pure trivial
    | ok x =>
      refine .andThen (stays_coordinate "Y" _ hy) fun y => ?_
      cases y with
      | error message => exact .pure trivial
      | ok y =>
        refine .andThen (stays_coordinate "Z" _ hz) fun z => ?_
        cases z <;> exact .pure trivial
  unfold MakeVector.eval
  split
  · exact .quiet rfl rfl
  · refine .andThen hvector fun v => ?_
    cases v with
    | error message => exact .quiet rfl rfl
    | ok v => exact .binding rfl rfl (R.plain nofun)

/-! ### Texts -/

theorem acts_concatenate (c : Concatenate) : R.Acts (c.eval scope) := by
  have hpart (useVariable : Bool) (name : Option String) (given : Value) :
      R.Stays (Concatenate.part scope useVariable name given) := by
    unfold Concatenate.part
    split <;> exact stays_ask _
  refine .andThen (hpart _ _ _) fun _ => .andThen (hpart _ _ _) fun _ => ?_
  exact .binding rfl rfl (R.plain nofun)

theorem acts_formatText (hs : scope.In R) {c : FormatText}
    (hargs : ∀ s ∈ c.arguments, R.value s.value) : R.Acts (c.eval scope) := by
  unfold FormatText.eval
  split
  · exact .quiet rfl rfl
  · refine .bind (keeps_resolveAll hs hargs) fun args _ => .andThen (stays_ask _) fun _ => ?_
    dsimp only
    split
    · exact .andThen (stays_warn _) fun _ => .binding rfl rfl (R.plain nofun)
    · exact .binding rfl rfl (R.plain nofun)

theorem acts_textLength (c : TextLength) : R.Acts (c.eval scope) := by
  unfold TextLength.eval
  split
  · exact .quiet rfl rfl
  · dsimp only
    split
    · exact .andThen (stays_lift _) fun _ => .binding rfl rfl (R.plain nofun)
    · exact .quiet rfl rfl

/-! ### Tables -/

theorem stays_resolveKey (type : KeyType) (given : Value) :
    R.Stays (resolveKey scope type given) := by
  unfold resolveKey
  split
  · split
    · exact .andThen (stays_ask _) fun _ => .pure trivial
    · split
      · exact .pure trivial
      · exact .pure trivial
      · exact .andThen (stays_ask _) fun _ => .pure trivial
  · refine .andThen (stays_toNumber? _) fun n? => ?_
    cases n? with
    | some n => exact .pure trivial
    | none => exact .andThen (stays_ask _) fun _ => .pure trivial
  · split
    · exact .pure trivial
    · exact .andThen (stays_ask _) fun _ => .pure trivial

theorem keeps_resolveValue (hs : scope.In R) (kind : SourceKind) {given : Value}
    (hgiven : R.value given) :
    R.Keeps (fun r => ∀ v, r = .ok v → R.value v) (resolveValue scope kind given) := by
  unfold resolveValue
  split
  · split
    · exact .andThen (stays_ask _) fun _ => .pure nofun
    · refine .pure ?_
      rintro v ⟨⟩
      exact value_get_nil hs _
  · refine .bind (keeps_literal hgiven) fun w hw => .pure ?_
    rintro v ⟨⟩
    exact hw

theorem acts_createTable {c : CreateTable} (hc : R.value c.initialValue) :
    R.Acts (c.eval scope) := by
  have hempty : ∀ v ∈ c.tableType.empty.values, R.value v := by
    cases c.tableType <;> exact List.forall_mem_nil _
  unfold CreateTable.eval
  split
  · exact .quiet rfl rfl
  · refine .bind (keeps_literal hc) fun v hv => ?_
    split
    · exact .binding rfl rfl hv
    · exact .bind (keeps_alloc hempty) fun w hw => .binding rfl rfl hw
    · exact .andThen (stays_ask _) fun _ => .quiet rfl rfl

end Realm

namespace Table

variable {V : Value → Prop} {t t' : Table} {k : Key} {v : Value}

theorem mem_values_of_get? (hv : t.get? k = .ok (some v)) : v ∈ t.values := by
  cases t with
  | array items =>
    obtain ⟨slot?, -, hv⟩ := Serial.exists_of_bind hv
    cases slot? with
    | none => cases hv
    | some slot =>
      dsimp only at hv
      split at hv
      · cases hv
      · exact List.mem_of_getElem? (Except.ok.inj hv)
  | map d =>
    obtain ⟨e, he, rfl⟩ := Dict.exists_mem_of_get? (Except.ok.inj hv)
    exact List.mem_map_of_mem he

theorem forall_values_of_put? (ht : ∀ w ∈ t.values, V w) (hv : V v)
    (hr : t.put? k v = .ok (some t')) : ∀ w ∈ t'.values, V w := by
  cases t with
  | array items =>
    obtain ⟨slot?, -, hr⟩ := Serial.exists_of_bind hr
    cases slot? with
    | none => cases hr
    | some slot =>
      dsimp only at hr
      split at hr
      · cases hr
      · split at hr
        · cases hr
          exact List.forall_mem_append.2 ⟨ht, List.forall_mem_singleton.2 hv⟩
        · cases hr
          intro w hw
          obtain hw | rfl := List.mem_or_eq_of_mem_set hw
          · exact ht w hw
          · exact hv
  | map d =>
    cases hr
    have hput := Dict.forall_put (P := fun _ : Key => True) (Q := V) (k := k) trivial hv
      fun e he => ⟨trivial, List.forall_mem_map.1 ht e he⟩
    exact List.forall_mem_map.2 fun e he => (hput e he).2

end Table

namespace Realm

variable {R : Realm} {scope : Scope}

theorem acts_setTableValue (hs : scope.In R) {c : SetTableValue} (hvalue : R.value c.valueSource) :
    R.Acts (c.eval scope) := by
  have hwrite (name : String) {a : Address} (ha : R.value (.table a)) :
      R.Acts (c.write scope name a) := by
    refine .andThen (stays_resolveKey _ _) fun key? => ?_
    cases key? with
    | error message => exact .quiet rfl rfl
    | ok key =>
      refine .bind (keeps_resolveValue hs _ hvalue) fun v? hv => ?_
      cases v? with
      | error message => exact .quiet rfl rfl
      | ok v =>
        refine .bind keeps_get fun d hd => ?_
        have hput : R.Keeps (fun r => ∀ t, r = some t → ∀ w ∈ t.values, R.value w)
            (Eval.lift ((d.heap.get a).put? key v)) :=
          keeps_lift fun r hr t ht =>
            Table.forall_values_of_put? (R.inside hd ha) (hv v rfl) (ht ▸ hr)
        refine .bind hput fun changed? hchanged => ?_
        cases changed? with
        | none => exact .andThen (stays_ask _) fun _ => .quiet rfl rfl
        | some changed => exact .writing rfl rfl ha (hchanged changed rfl)
  unfold SetTableValue.eval
  split
  · exact .quiet rfl rfl
  · next name _ =>
    have hget := value_get_nil hs name
    split
    · next a ha => exact hwrite name (ha ▸ hget)
    · exact .quiet rfl rfl

/-- What is looked up may be held, and so may what stands in for it. -/
theorem keeps_lookUp (hs : scope.In R) (c : GetTableValue) (name : String) {absent : Value}
    (ha : R.value absent) :
    R.Keeps (fun found => R.value found.value) (c.lookUp scope name absent) := by
  refine .bind (keeps_table? (value_get_nil hs name)) fun table? ht => ?_
  match table? with
  | none => exact .pure ha
  | some (a, table) =>
    refine .andThen (stays_resolveKey _ _) fun key? => ?_
    cases key? with
    | error message => exact .pure ha
    | ok key =>
      have hfound : R.Keeps (fun r => ∀ v, r = some v → R.value v)
          (Eval.lift (table.get? key)) :=
        keeps_lift fun r hr v hv => (ht a table rfl).2 v (Table.mem_values_of_get? (hv ▸ hr))
      refine .bind hfound fun found? hfound => ?_
      cases found? with
      | some v => exact .pure (hfound v rfl)
      | none => exact .andThen (stays_ask _) fun _ => .pure ha

theorem acts_getTableValue (hs : scope.In R) {c : GetTableValue} (hdefault : R.value c.defaultValue) :
    R.Acts (c.eval scope) := by
  unfold GetTableValue.eval
  split
  · exact .quiet rfl rfl
  · exact .quiet rfl rfl
  · refine .bind (keeps_literal hdefault) fun absent ha => ?_
    exact .bind (keeps_lookUp hs c _ ha) fun found hfound => .binding rfl rfl hfound

theorem acts_insertIntoTable (hs : scope.In R) {c : InsertIntoTable}
    (hc : R.value c.valueSource) : R.Acts (c.eval scope) := by
  unfold InsertIntoTable.eval
  split
  · exact .quiet rfl rfl
  · refine .bind (keeps_table? (value_get_nil hs _)) fun table? ht => ?_
    split
    · next a items =>
      obtain ⟨ha, hitems⟩ := ht a (.array items) rfl
      refine .bind (keeps_resolveValue hs _ hc) fun v? hv => ?_
      cases v? with
      | error message => exact .quiet rfl rfl
      | ok v =>
        exact .writing rfl rfl ha
          (List.forall_mem_append.2 ⟨hitems, List.forall_mem_singleton.2 (hv v rfl)⟩)
    · exact .quiet rfl rfl

theorem acts_getTableLength (hs : scope.In R) (c : GetTableLength) : R.Acts (c.eval scope) := by
  unfold GetTableLength.eval
  split
  · exact .quiet rfl rfl
  · exact .quiet rfl rfl
  · exact .bind (keeps_table? (value_get_nil hs _)) fun _ _ => .binding rfl rfl (R.plain nofun)

/-! ### Events -/

theorem acts_serverEvent (hs : scope.In R) {c : ServerEvent}
    (hargs : ∀ s ∈ c.arguments, R.value s.value) : R.Acts (c.eval scope) := by
  unfold ServerEvent.eval
  split
  · exact .quiet rfl rfl
  · exact .bind (keeps_resolveAll hs hargs) fun _ _ =>
      .andThen (stays_ask _) fun _ => .quiet rfl rfl

theorem acts_clientEvent (hs : scope.In R) {c : ClientEvent}
    (hargs : ∀ s ∈ c.arguments, R.value s.value) : R.Acts (c.eval scope) := by
  unfold ClientEvent.eval
  split
  · exact .quiet rfl rfl
  · exact .bind (keeps_resolveAll hs hargs) fun _ _ =>
      .andThen (stays_ask _) fun _ => .andThen (stays_ask _) fun _ => .quiet rfl rfl

/-! ### Leaves -/

/-- A leaf that is configured with values of the realm acts within it. -/
theorem acts_leaf (hs : scope.In R) {l : Leaf} (hl : ∀ v ∈ l.values, R.value v) :
    R.Acts (l.eval scope) := by
  cases l with
  | setVariable c => exact acts_setVariable hs (hl _ (by simp [Leaf.values]))
  | readVariable c => exact acts_readVariable hs (hl _ (by simp [Leaf.values]))
  | print c => exact acts_print c
  | arithmetic c =>
    exact acts_arithmetic hs (hl _ (by simp [Leaf.values])) (hl _ (by simp [Leaf.values]))
  | wait c => exact acts_wait hs (hl _ (by simp [Leaf.values]))
  | typeCheck c => exact acts_typeCheck (hl _ (by simp [Leaf.values, Conversion.values]))
  | toText c => exact acts_toText (hl _ (by simp [Leaf.values, Conversion.values]))
  | toNumber c => exact acts_toNumber (hl _ (by simp [Leaf.values, Conversion.values]))
  | makeVector c =>
    exact acts_makeVector (hl _ (by simp [Leaf.values])) (hl _ (by simp [Leaf.values]))
      (hl _ (by simp [Leaf.values]))
  | concatenate c => exact acts_concatenate c
  | formatText c => exact acts_formatText hs (List.forall_mem_map.1 hl)
  | textLength c => exact acts_textLength c
  | createTable c => exact acts_createTable (hl _ (by simp [Leaf.values]))
  | setTableValue c => exact acts_setTableValue hs (hl _ (by simp [Leaf.values]))
  | getTableValue c => exact acts_getTableValue hs (hl _ (by simp [Leaf.values]))
  | insertIntoTable c => exact acts_insertIntoTable hs (hl _ (by simp [Leaf.values]))
  | getTableLength c => exact acts_getTableLength hs c
  | serverEvent c => exact acts_serverEvent hs (List.forall_mem_map.1 hl)
  | clientEvent c =>
    exact acts_clientEvent hs (List.forall_mem_map.1 (List.forall_mem_cons.1 hl).2)

end Realm

end NodeScript
