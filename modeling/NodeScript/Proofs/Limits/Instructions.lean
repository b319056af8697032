import NodeScript.Proofs.Closed.Contexts

/-!
Leaves in a run. A leaf ends in a record or in nothing, whatever its configuration says and whatever
the variables hold, unless a value that it can get hold of is beyond a limit of evaluation.
-/

namespace NodeScript

variable {c : Context} {i : Instruction}

/-! ### What a leaf can get hold of -/

namespace Context

/-- A value in the configuration of an instruction, in a variable, or inside one of these. -/
inductive Holds (c : Context) (i : Instruction) : Value → Prop
  | config {e : String × Value} (he : e ∈ i.config.entries) : Holds c i e.2
  | binding {e : String × Value} (he : e ∈ c.bindings.entries) : Holds c i e.2
  | inside {a : Address} {v : Value} (ha : Holds c i (.table a)) (hv : v ∈ (c.heap.get a).values) :
      Holds c i v

/-- A value that is held, as it looks, or what a text among these means as a literal or as a
number. -/
inductive InPlay (c : Context) (i : Instruction) : Tree → Prop
  | value {v : Value} (hv : c.Holds i v) : InPlay c i (c.heap.tree v)
  | literal {s : String} {t : Tree} (hs : InPlay c i (.text s)) (ht : Literal.read c.room s = .ok t) :
      InPlay c i t
  | number {s : String} {n : Number} (hs : InPlay c i (.text s)) (hn : Number.ofText? s = some n) :
      InPlay c i (.number n)

theorem closedUnderReading_inPlay (c : Context) (i : Instruction) :
    ClosedUnderReading c.room (c.InPlay i) :=
  ⟨.literal, .number⟩

theorem Closed.within_of_holds (hc : c.Closed) (hi : i.Within c.heap) {v : Value}
    (hv : c.Holds i v) : v.Within c.heap := by
  induction hv with
  | config he => exact hi _ he
  | binding he => exact hc.bindings _ he
  | inside _ hv ih => exact hc.heap.inherits_within.inside _ _ ih hv

theorem Closed.traced_of_holds (hc : c.Closed) (hi : i.Within c.heap) {v : Value}
    (hv : c.Holds i v) : v.Traced (c.InPlay i) c.heap := by
  have hwithin := hc.within_of_holds hi hv
  refine ⟨hwithin, fun g hg => (hc.heap.tree_bounded hg hwithin).traced (.value hv), ?_⟩
  rintro s rfl
  exact .inr (.value hv)

/-- What is held, and what takes the place of fields that are left out. -/
inductive Offers (c : Context) (i : Instruction) : Value → Prop
  | held {v : Value} (hv : c.Holds i v) : Offers c i v
  | nil : Offers c i .nil
  | emptyText : Offers c i (.text "")
  | word {n : Int} (hn : Check.isInnerWord n = true) : Offers c i (.int n)

theorem inherits_offers (c : Context) (i : Instruction) : c.heap.Inherits (c.Offers i) where
  nil := .nil
  emptyText := .emptyText
  word _ := .word
  inside a v ha hv := by
    cases ha with
    | held ha => exact .held (.inside ha hv)

theorem Closed.traced_of_offers (hc : c.Closed) (hi : i.Within c.heap) {v : Value}
    (hv : c.Offers i v) : v.Traced (c.InPlay i) c.heap := by
  cases hv with
  | held hv => exact hc.traced_of_holds hi hv
  | nil => exact .nil
  | emptyText => exact .emptyText
  | word hn =>
    refine .int (.inl ?_)
    have hle : twoPow 63 ≤ doubleLimit := by decide +kernel
    simp only [Check.isInnerWord, Bool.and_eq_true, decide_eq_true_eq] at hn
    omega

theorem Closed.scope_traced (hc : c.Closed) (hi : i.Within c.heap) :
    c.scope.Traced (c.InPlay i) c.heap := by
  intro name v hv
  obtain ⟨e, he, rfl⟩ := Dict.exists_mem_of_get? hv
  exact hc.traced_of_holds hi (.binding he)

end Context

/-! ### Evaluation -/

/-- A leaf whose values are traced comes to an effect, unless a limit is exceeded. -/
theorem Leaf.acts {room : Nat} {known : Tree → Prop} {h : Heap} {scope : Scope} {l : Leaf}
    (hknown : ClosedUnderReading room known) (hs : scope.Traced known h)
    (hl : ∀ v ∈ l.values, v.Traced known h) : Eval.Acts room known h (l.eval scope) := by
  have hsources {ss : List Source} (hv : ∀ v ∈ ss.map Source.value, v.Traced known h) :
      ∀ s ∈ ss, s.value.Traced known h := List.forall_mem_map.1 hv
  cases l with
  | setVariable c => exact SetVariable.acts hknown hs (hl _ (by simp [values]))
  | readVariable c => exact ReadVariable.acts hknown hs (hl _ (by simp [values]))
  | print c => exact Print.acts hs (hl _ (by simp [values]))
  | arithmetic c =>
    exact Arithmetic.acts hknown hs (hl _ (by simp [values])) (hl _ (by simp [values]))
  | wait c => exact Wait.acts hknown hs (hl _ (by simp [values]))
  | typeCheck c =>
    exact Conversion.typeCheck_acts hknown hs (hl _ (by simp [values, Conversion.values]))
  | toText c =>
    exact Conversion.toText_acts hknown hs (hl _ (by simp [values, Conversion.values]))
  | toNumber c =>
    obtain ⟨hinput, hbase⟩ := List.forall_mem_cons.1 hl
    refine Conversion.toNumber_acts hknown hs hinput fun n hn => ?_
    have hint : (Value.int n).Traced known h := hbase _ (by simp [hn, Base.values])
    exact (hint.shown h (.refl h)).integers n (List.mem_singleton_self n)
  | makeVector c =>
    exact MakeVector.acts hknown hs (hl _ (by simp [values])) (hl _ (by simp [values]))
      (hl _ (by simp [values]))
  | concatenate c =>
    exact Concatenate.acts hs (hl _ (by simp [values])) (hl _ (by simp [values]))
  | formatText c => exact FormatText.acts hknown hs (hsources hl)
  | textLength c => exact TextLength.acts hs hl
  | createTable c => exact CreateTable.acts hknown (hl _ (by simp [values]))
  | setTableValue c =>
    exact SetTableValue.acts hknown hs (hl _ (by simp [values])) (hl _ (by simp [values]))
  | getTableValue c =>
    exact GetTableValue.acts hknown hs (hl _ (by simp [values])) (hl _ (by simp [values]))
  | insertIntoTable c => exact InsertIntoTable.acts hknown hs (hl _ (by simp [values]))
  | getTableLength c => exact GetTableLength.acts c
  | serverEvent c => exact ServerEvent.acts hknown hs (hsources hl)
  | clientEvent c =>
    obtain ⟨htarget, hargs⟩ := List.forall_mem_cons.1 hl
    exact ClientEvent.acts hknown hs (hsources hargs) htarget

theorem Handler.run_leaf (l : Leaf) (start : String) (caller : Caller) (c : Context) :
    (Handler.leaf l).run start caller c =
      match Exec.evaluate l.eval c with
      | .ok effect c' => .ok ((effect.output.map Reply.record).getD .nothing) (c'.commit effect)
      | .error e c' => .error e c' := by
  have happly : Exec.leaf l c =
      match Exec.evaluate l.eval c with
      | .ok effect c' => .ok effect.output (c'.commit effect)
      | .error e c' => .error e c' := by
    simp only [Exec.leaf, bind, EStateM.bind]
    cases Exec.evaluate l.eval c <;> rfl
  simp only [Handler.run, bind, EStateM.bind, happly]
  cases Exec.evaluate l.eval c with
  | error e c' => rfl
  | ok effect c' =>
    dsimp only
    cases effect.output <;> rfl

/-- The instructions that are leaves have the tags of leaves. -/
theorem HandlerKind.ofTag?_leaf {tag : String} {kind : LeafKind}
    (hk : LeafKind.ofTag? tag = some kind) :
    Control.ofTag? tag = none ∧ HandlerKind.ofTag? tag = some (.leaf kind) := by
  have htag : kind.tag = tag := by simpa using List.find?_some hk
  have hcontrol : Control.ofTag? tag = none := by
    rw [← htag]
    cases kind <;> decide +kernel
  refine ⟨hcontrol, ?_⟩
  unfold HandlerKind.ofTag?
  rw [hcontrol, hk]
  rfl

/-- Evaluating a leaf: its configuration is refused, or its effect is carried out. -/
theorem Instruction.evaluate_of_leaf {kind : LeafKind} (hk : LeafKind.ofTag? i.tag = some kind)
    (start : String) (caller : Caller) (c : Context) :
    i.evaluate start caller c =
      match Leaf.decoder c.heap kind i.config.get? with
      | .invalid problems => .ok .nothing (i.refuse problems c)
      | .valid l => (Handler.leaf l).run start caller c := by
  rw [evaluate_of_kind (HandlerKind.ofTag?_leaf hk).2, Handler.decoder, Decoder.map_apply]
  cases Leaf.decoder c.heap kind i.config.get? <;> rfl

/-- The result of a leaf: a record or nothing. -/
def Reply.IsPlain (reply : Reply) : Prop :=
  reply = .nothing ∨ ∃ r, reply = .record r

namespace Context.Closed

variable (hc : c.Closed)

include hc

theorem run_leaf {E : Fault → Prop} {l : Leaf}
    (hl : Eval.Ends E c.room c.heap (fun g e => e.Within g) (l.eval c.scope)) (start : String)
    (caller : Caller) :
    c.LeadsTo E (fun _ reply => reply.IsPlain) ((Handler.leaf l).run start caller c) := by
  have hevaluate := hc.evaluate hl
  rw [Handler.run_leaf]
  generalize Exec.evaluate l.eval c = r at hevaluate
  cases r with
  | error f c' => exact hevaluate
  | ok effect c' =>
    obtain ⟨hleads, heffect⟩ := hevaluate
    refine ⟨hleads.trans (hleads.closed.commit heffect), ?_⟩
    cases effect.output with
    | none => exact .inl rfl
    | some r => exact .inr ⟨r, rfl⟩

/-- A leaf ends in a record or in nothing, unless a limit is exceeded. -/
theorem evaluate_leaf (hi : i.Within c.heap) {kind : LeafKind}
    (hk : LeafKind.ofTag? i.tag = some kind) (start : String) (caller : Caller) :
    c.LeadsTo (Exceeded c.room (c.InPlay i)) (fun _ reply => reply.IsPlain)
      (i.evaluate start caller c) := by
  rw [Instruction.evaluate_of_leaf hk]
  cases hl : Leaf.decoder c.heap kind i.config.get? with
  | invalid problems => exact ⟨hc.unchanged rfl rfl rfl rfl, .inl rfl⟩
  | valid l =>
    have hfields (n : String) (v : Value) (hv : i.config.get? n = some v) : c.Offers i v := by
      obtain ⟨e, he, rfl⟩ := Dict.exists_mem_of_get? hv
      exact .held (.config he)
    have hvalues := Leaf.forall_values_of_decoder (c.inherits_offers i) hfields hl
    exact hc.run_leaf (Leaf.acts (c.closedUnderReading_inPlay i) (hc.scope_traced hi)
      fun v hv => hc.traced_of_offers hi (hvalues v hv)) start caller

end Context.Closed

end NodeScript
