import NodeScript.Proofs.Effects
import NodeScript.Proofs.Relocation.Decoding

/-!
Where the values of a configuration come from. Each value that a handler is configured with stands in
a field, lies inside a table that does, or takes the place of a field that is left out.
-/

namespace NodeScript

variable {h : Heap} {α β : Type}

/-! ### Values -/

def Base.values : Base → List Value
  | .text _ => []
  | .int n => [.int n]

def Conversion.values (c : Conversion) : List Value :=
  c.inputValue :: (c.base.map Base.values).getD []

/-- The values that a leaf is configured with. -/
def Leaf.values : Leaf → List Value
  | .setVariable c => [c.value]
  | .readVariable c => [c.defaultValue]
  | .print c => [c.message]
  | .arithmetic c => [c.value1, c.value2]
  | .wait c => [c.duration]
  | .typeCheck c | .toText c | .toNumber c => c.values
  | .makeVector c => [c.x, c.y, c.z]
  | .concatenate c => [c.string1, c.string2]
  | .formatText c => c.arguments.map Source.value
  | .textLength c => c.inputValue.toList.map .text
  | .createTable c => [c.initialValue]
  | .setTableValue c => [c.keyValue, c.valueSource]
  | .getTableValue c => [c.keyValue, c.defaultValue]
  | .insertIntoTable c => [c.valueSource]
  | .getTableLength _ => []
  | .serverEvent c => c.arguments.map Source.value
  | .clientEvent c => c.targetPlayer :: c.arguments.map Source.value

/-- The values that a handler is configured with. -/
def Handler.values : Handler → List Value
  | .condition c => [c.lhs, c.rhs]
  | .numericFor c => [c.start, c.finish, c.step]
  | .genericFor _ | .breakLoop => []
  | .giveBack c => [c.returnValue]
  | .call c => c.arguments.map Source.value
  | .leaf l => l.values

def Table.values : Table → List Value
  | .array items => items
  | .map d => d.entries.map Prod.snd

/-- A property of nil, of the empty text and of integers of a machine word, which tables pass on to
what they contain. -/
structure Heap.Inherits (h : Heap) (P : Value → Prop) : Prop where
  nil : P .nil
  emptyText : P (.text "")
  word : ∀ n, Check.isInnerWord n = true → P (.int n)
  inside : ∀ a v, P (.table a) → v ∈ (h.get a).values → P v

theorem Dict.exists_mem_of_get? {κ : Type} [BEq κ] {d : Dict κ α} {k : κ} {a : α}
    (hk : d.get? k = some a) : ∃ e ∈ d.entries, e.2 = a := by
  obtain ⟨e, he, rfl⟩ := Option.map_eq_some_iff.1 hk
  exact ⟨e, List.mem_of_find?_eq_some he, rfl⟩

/-! ### Checks that pass -/

namespace Checked

theorem forall_of_sequence {Q : α → Prop} {cs : List (Checked α)} {as : List α}
    (hr : sequence cs = .valid as) (hcs : ∀ c ∈ cs, ∀ a, c = .valid a → Q a) : ∀ a ∈ as, Q a := by
  induction cs generalizing as with
  | nil =>
    cases hr
    exact nofun
  | cons c cs ih =>
    obtain ⟨hhead, htail⟩ := List.forall_mem_cons.1 hcs
    obtain ⟨f, rest, hf, hrest, rfl⟩ := exists_of_seq ((sequence_cons c cs).symm.trans hr)
    obtain ⟨a, ha, rfl⟩ := exists_of_map hf
    exact List.forall_mem_cons.2 ⟨hhead a ha, ih hrest htail⟩

end Checked

theorem Check.forall_of_list {Q : α → Prop} {check : Value → Checked α} {v : Value} {as : List α}
    (hr : list h check v = .valid as)
    (hc : ∀ items, h.array? v = some items → ∀ w ∈ items, ∀ a, check w = .valid a → Q a) :
    ∀ a ∈ as, Q a := by
  unfold list at hr
  cases hitems : h.array? v with
  | none =>
    rw [hitems] at hr
    cases hr
  | some items =>
    rw [hitems] at hr
    refine Checked.forall_of_sequence hr fun c hmem a ha => ?_
    obtain ⟨⟨w, n⟩, hw, rfl⟩ := List.mem_map.1 hmem
    exact hc items hitems w (List.fst_mem_of_mem_zipIdx hw) a (Checked.valid_of_within ha)

/-! ### Decoders that succeed -/

namespace Decoder

variable {fields : Fields} {name : FieldName} {Q : α → Prop} {R : β → Prop}

/-- What the decoder makes of the fields, if it makes anything, has a property. -/
def Gives (fields : Fields) (Q : α → Prop) (d : Decoder α) : Prop :=
  ∀ a, d fields = .valid a → Q a

theorem Gives.anything (d : Decoder α) : Gives fields (fun _ => True) d :=
  fun _ _ => trivial

theorem Gives.map {f : α → β} {d : Decoder α} (hf : ∀ a, Q a → R (f a)) (h : Gives fields Q d) :
    Gives fields R (f <$> d) := by
  intro b hb
  obtain ⟨a, ha, rfl⟩ := Checked.exists_of_map hb
  exact hf a (h a ha)

theorem Gives.seq {d : Decoder (α → β)} {e : Decoder α}
    (h : Gives fields (fun f => ∀ a, Q a → R (f a)) d) (he : Gives fields Q e) :
    Gives fields R (d <*> e) := by
  intro b hb
  obtain ⟨f, a, hf, ha, rfl⟩ := Checked.exists_of_seq hb
  exact h f hf a (he a ha)

theorem eq_some_of_find? {used : String} {v : Value} (hf : find? name fields = some (used, v)) :
    fields used = some v := by
  unfold find? at hf
  split at hf
  · next hv =>
    cases hf
    exact hv
  · obtain ⟨w, hw, ⟨⟩⟩ := Option.map_eq_some_iff.1 hf
    exact hw

theorem gives_optional {check : Value → Checked α} {absent : α} (ha : Q absent)
    (hc : ∀ n v a, fields n = some v → check v = .valid a → Q a) :
    Gives fields Q (optional name absent check) := by
  intro a hr
  unfold optional at hr
  split at hr
  · next used v hf => exact hc used v a (eq_some_of_find? hf) (Checked.valid_of_within hr)
  · cases hr
    exact ha

end Decoder

/-! ### Tables -/

theorem Heap.array?_eq_some {v : Value} {items : List Value} :
    h.array? v = some items ↔ ∃ a, v = .table a ∧ h.get a = .array items := by
  cases v with
  | table a => cases ht : h.get a <;> simp [Heap.array?, ht]
  | _ => simp [Heap.array?]

theorem Heap.map?_eq_some {v : Value} {d : Dict Key Value} :
    h.map? v = some d ↔ ∃ a, v = .table a ∧ h.get a = .map d := by
  cases v with
  | table a => cases ht : h.get a <;> simp [Heap.map?, ht]
  | _ => simp [Heap.map?]

/-! ### Leaves -/

section

variable {P : Value → Prop} (hP : h.Inherits P)

include hP

theorem Heap.Inherits.array? {v : Value} {items : List Value} (hv : P v)
    (ha : h.array? v = some items) : ∀ w ∈ items, P w := by
  obtain ⟨a, rfl, ht⟩ := Heap.array?_eq_some.1 ha
  exact fun w hw => hP.inside a w hv (ht ▸ hw)

theorem Heap.Inherits.map? {v : Value} {d : Dict Key Value} (hv : P v) (hm : h.map? v = some d) :
    ∀ e ∈ d.entries, P e.2 := by
  obtain ⟨a, rfl, ht⟩ := Heap.map?_eq_some.1 hm
  exact fun e he => hP.inside a e.2 hv (ht ▸ List.mem_map_of_mem he)

/-- An integer that is given as a base is given as itself, as a truth value or as a double. -/
theorem Base.forall_of_check {v : Value} (hv : P v) {b : Base} (hb : check v = .valid b) :
    ∀ w ∈ b.values, P w := by
  unfold check at hb
  split at hb
  · cases hb
    exact nofun
  · cases hb
    exact List.forall_mem_singleton.2 hv
  · next truth =>
    cases hb
    exact List.forall_mem_singleton.2 (hP.word _ (by cases truth <;> decide +kernel))
  · split at hb
    · next n _ =>
      split at hb
      · next hword =>
        cases hb
        exact List.forall_mem_singleton.2 (hP.word n hword)
      · cases hb
    · cases hb
  · cases hb
  · cases hb

variable {fields : Fields} (hfields : ∀ n v, fields n = some v → P v)

omit hP in
include hfields in
theorem Decoder.gives_any {name : FieldName} {absent : Value} (ha : P absent) :
    Gives fields P (any name absent) := by
  refine gives_optional ha ?_
  rintro n v _ hv ⟨⟩
  exact hfields n v hv

theorem Source.value_of_check {v : Value} (hv : P v) {s : Source} (hs : check h v = .valid s) :
    P s.value := by
  unfold check at hs
  cases hm : h.map? v with
  | none =>
    rw [hm] at hs
    cases hs
  | some d =>
    rw [hm] at hs
    have hfields (n : String) (w : Value) (hw : d.fields n = some w) : P w := by
      obtain ⟨e, he, rfl⟩ := Dict.exists_mem_of_get? hw
      exact hP.map? hv hm e he
    have hgives : Decoder.Gives d.fields (fun s : Source => P s.value)
        (mk <$> Decoder.optional ⟨"type", "type"⟩ .literal (Check.choice SourceKind.options)
          <*> Decoder.any ⟨"value", "value"⟩) :=
      .seq (.map (fun _ _ _ hw => hw) (.anything _)) (Decoder.gives_any hfields hP.nil)
    exact hgives s hs

include hfields

theorem Decoder.gives_sources {name : FieldName} :
    Gives fields (fun ss => ∀ v ∈ ss.map Source.value, P v) (sources h name) := by
  refine gives_optional nofun fun n v ss hv hss => List.forall_mem_map.2 ?_
  refine Check.forall_of_list hss fun items hitems w hw s hs => ?_
  exact Source.value_of_check hP (hP.array? (hfields n v hv) hitems w hw) hs

theorem Conversion.gives_values :
    Decoder.Gives fields (fun c : Conversion => ∀ v ∈ c.values, P v) decoder := by
  have hbase : Decoder.Gives fields
      (fun b : Option Base => ∀ v ∈ (b.map Base.values).getD [], P v)
      (.optional ⟨"base", "base"⟩ none (Check.orNil Base.check)) := by
    refine Decoder.gives_optional nofun fun n v b hv hb => ?_
    unfold Check.orNil at hb
    split at hb
    · cases hb
      exact nofun
    · obtain ⟨base, hbase, rfl⟩ := Checked.exists_of_map hb
      exact Base.forall_of_check hP (hfields n v hv) hbase
  refine .seq (.seq (.seq (.seq (.map ?_ (.anything _)) (.anything _))
    (Decoder.gives_any hfields hP.nil)) (.anything _)) hbase
  rintro useVariable - inputVariable - value hv result - base hb
  exact List.forall_mem_cons.2 ⟨hv, hb⟩

omit hP in
/-- A text is kept as it is given. -/
theorem Decoder.gives_textOrNil {name : FieldName} :
    Gives fields (fun s => ∀ v ∈ s.toList.map Value.text, P v) (textOrNil name) := by
  refine gives_optional nofun fun n v s hv hs => ?_
  unfold Check.orNil at hs
  split at hs
  · cases hs
    exact nofun
  · obtain ⟨t, ht, rfl⟩ := Checked.exists_of_map hs
    have ht : v = .text t := by
      cases v <;> cases ht
      rfl
    exact List.forall_mem_singleton.2 (ht ▸ hfields n v hv)

/-- A scalar is kept as it is given. -/
theorem Concatenate.gives_scalar {name : FieldName} :
    Decoder.Gives fields P (.optional name (.text "") checkScalar) := by
  refine Decoder.gives_optional hP.emptyText fun n v w hv hw => ?_
  have hw : v = w := by cases v <;> cases hw <;> rfl
  exact hw ▸ hfields n v hv

/-- What a leaf is configured with has every property that its fields have. -/
theorem Leaf.forall_values_of_decoder {kind : LeafKind} {l : Leaf}
    (hl : decoder h kind fields = .valid l) : ∀ v ∈ l.values, P v := by
  have hgiven {name : FieldName} {absent : Value} (ha : P absent) :
      Decoder.Gives fields P (Decoder.any name absent) := Decoder.gives_any hfields ha
  have hsources {name : FieldName} :
      Decoder.Gives fields (fun ss => ∀ v ∈ ss.map Source.value, P v) (Decoder.sources h name) :=
    Decoder.gives_sources hP hfields
  have hzero : P (.int 0) := hP.word 0 (by decide +kernel)
  suffices hg : Decoder.Gives fields (fun l : Leaf => ∀ v ∈ l.values, P v) (decoder h kind) from
    hg l hl
  cases kind with
  | setVariable =>
    refine .map (fun _ => id) (.seq (.seq (.map ?_ (.anything _)) (hgiven hP.nil)) (.anything _))
    rintro name - value hv dataType -
    exact List.forall_mem_singleton.2 hv
  | readVariable =>
    refine .map (fun _ => id) (.seq (.seq (.map ?_ (.anything _)) (hgiven hP.nil)) (.anything _))
    rintro name - value hv result -
    exact List.forall_mem_singleton.2 hv
  | print =>
    refine .map (fun _ => id) (.seq (.seq (.seq (.seq (.map ?_ (hgiven hP.emptyText))
      (.anything _)) (.anything _)) (.anything _)) (.anything _))
    rintro message hv useVariable - name - console - color -
    exact List.forall_mem_singleton.2 hv
  | arithmetic =>
    refine .map (fun _ => id) (.seq (.seq (.seq (.seq (.seq (.seq (.seq (.map ?_ (.anything _))
      (hgiven hzero)) (hgiven hzero)) (.anything _)) (.anything _)) (.anything _)) (.anything _))
      (.anything _))
    rintro operation - value1 h1 value2 h2 use1 - name1 - use2 - name2 - result -
    exact List.forall_mem_cons.2 ⟨h1, List.forall_mem_singleton.2 h2⟩
  | wait =>
    refine .map (fun _ => id) (.seq (.seq (.map ?_ (hgiven hzero)) (.anything _)) (.anything _))
    rintro duration hv useVariable - name -
    exact List.forall_mem_singleton.2 hv
  | typeCheck => exact .map (fun _ => id) (Conversion.gives_values hP hfields)
  | toText => exact .map (fun _ => id) (Conversion.gives_values hP hfields)
  | toNumber => exact .map (fun _ => id) (Conversion.gives_values hP hfields)
  | makeVector =>
    refine .map (fun _ => id) (.seq (.seq (.seq (.seq (.seq (.seq (.map ?_ (.anything _))
      (hgiven hzero)) (hgiven hzero)) (hgiven hzero)) (.anything _)) (.anything _)) (.anything _))
    rintro result - x hx y hy z hz useX - useY - useZ -
    exact List.forall_mem_cons.2 ⟨hx, List.forall_mem_cons.2 ⟨hy, List.forall_mem_singleton.2 hz⟩⟩
  | concatenate =>
    have hscalar {name : FieldName} :
        Decoder.Gives fields P (.optional name (.text "") Concatenate.checkScalar) :=
      Concatenate.gives_scalar hP hfields
    refine .map (fun _ => id) (.seq (.seq (.seq (.seq (.seq (.seq (.map ?_ hscalar) hscalar)
      (.anything _)) (.anything _)) (.anything _)) (.anything _)) (.anything _))
    rintro string1 h1 string2 h2 use1 - name1 - use2 - name2 - result -
    exact List.forall_mem_cons.2 ⟨h1, List.forall_mem_singleton.2 h2⟩
  | formatText =>
    refine .map (fun _ => id) (.seq (.seq (.map ?_ (.anything _)) hsources) (.anything _))
    rintro format - arguments hv result -
    exact hv
  | textLength =>
    refine .map (fun _ => id) (.seq (.seq (.seq (.map ?_ (.anything _))
      (Decoder.gives_textOrNil hfields)) (.anything _)) (.anything _))
    rintro name - value hv useVariable - result -
    exact hv
  | createTable =>
    refine .map (fun _ => id) (.seq (.seq (.map ?_ (.anything _)) (.anything _)) (hgiven hP.nil))
    rintro name - type - value hv
    exact List.forall_mem_singleton.2 hv
  | setTableValue =>
    refine .map (fun _ => id) (.seq (.seq (.seq (.seq (.map ?_ (.anything _)) (.anything _))
      (hgiven hP.nil)) (.anything _)) (hgiven hP.nil))
    rintro name - keyType - key hk valueType - value hv
    exact List.forall_mem_cons.2 ⟨hk, List.forall_mem_singleton.2 hv⟩
  | getTableValue =>
    refine .map (fun _ => id) (.seq (.seq (.seq (.seq (.map ?_ (.anything _)) (.anything _))
      (hgiven hP.nil)) (.anything _)) (hgiven hP.nil))
    rintro name - keyType - key hk result - value hv
    exact List.forall_mem_cons.2 ⟨hk, List.forall_mem_singleton.2 hv⟩
  | insertIntoTable =>
    refine .map (fun _ => id) (.seq (.seq (.map ?_ (.anything _)) (.anything _)) (hgiven hP.nil))
    rintro name - valueType - value hv
    exact List.forall_mem_singleton.2 hv
  | getTableLength => exact .map (fun _ _ => nofun) (.anything _)
  | serverEvent =>
    refine .map (fun _ => id) (.seq (.map ?_ (.anything _)) hsources)
    rintro name - arguments hv
    exact hv
  | clientEvent =>
    have hall : P broadcastTarget := hP.word _ (by decide +kernel)
    refine .map (fun _ => id) (.seq (.seq (.seq (.map ?_ (.anything _)) hsources) (hgiven hall))
      (.anything _))
    rintro name - arguments ha target ht useVariable -
    exact List.forall_mem_cons.2 ⟨ht, ha⟩

/-- Headers have texts in the place of fields that are left out. -/
theorem Handler.forall_values_of_decoder (htext : ∀ s, P (.text s)) {kind : HandlerKind}
    {handler : Handler} (hd : decoder h kind fields = .valid handler) :
    ∀ v ∈ handler.values, P v := by
  have hgiven {name : FieldName} {absent : Value} (ha : P absent) :
      Decoder.Gives fields P (Decoder.any name absent) := Decoder.gives_any hfields ha
  suffices hg : Decoder.Gives fields (fun l : Handler => ∀ v ∈ l.values, P v) (decoder h kind) from
    hg handler hd
  cases kind with
  | condition =>
    refine .map (fun _ => id) (.seq (.seq (.seq (.seq (.map ?_ (.anything _))
      (hgiven (htext ""))) (.anything _)) (.anything _)) (hgiven (htext "")))
    rintro lhsKind - lhs hl operator - rhsKind - rhs hr
    exact List.forall_mem_cons.2 ⟨hl, List.forall_mem_singleton.2 hr⟩
  | numericFor =>
    refine .map (fun _ => id) (.seq (.seq (.seq (.seq (.seq (.seq (.map ?_ (.anything _))
      (hgiven (htext "0"))) (.anything _)) (hgiven (htext "0"))) (.anything _))
      (hgiven (htext "1"))) (.anything _))
    rintro name - start hs startKind - finish hf finishKind - step ht stepKind -
    exact List.forall_mem_cons.2 ⟨hs, List.forall_mem_cons.2 ⟨hf, List.forall_mem_singleton.2 ht⟩⟩
  | genericFor => exact .map (fun _ _ => nofun) (.anything _)
  | breakLoop =>
    rintro _ ⟨⟩
    exact nofun
  | giveBack =>
    refine .map (fun _ => id) (.seq (.seq (.map ?_ (.anything _)) (.anything _)) (hgiven hP.nil))
    rintro useVariable - name - value hv
    exact List.forall_mem_singleton.2 hv
  | call =>
    refine .map (fun _ => id) (.seq (.seq (.map ?_ (.anything _))
      (Decoder.gives_sources hP hfields)) (.anything _))
    rintro name - arguments hv result -
    exact hv
  | leaf kind => exact .map (fun _ => id) fun l hl => Leaf.forall_values_of_decoder hP hfields hl

end

end NodeScript
