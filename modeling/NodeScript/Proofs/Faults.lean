import Mathlib
import NodeScript.Library

/-!
Faults of an evaluation concern values only. No handler fails by what the caller of a graph
contains, that is by an error of a call or of the block structure.
-/

set_option mvcgen.warning false

open Std.Do

namespace NodeScript

variable {α β : Type}

/-- Fails, if at all, by a fault that the caller of a graph does not contain. -/
abbrev Uncontained (x : Except Fault α) : Prop :=
  ⦃⌜True⌝⦄ x ⦃post⟨fun _ => ⌜True⌝, fun f => ⌜Call.isContained f = false⌝⟩⦄

/-- The same of an evaluation, or of a whole handler, whatever state it starts from. -/
abbrev RunsUncontained {σ : Type} (x : EStateM Fault σ α) : Prop :=
  ⦃⌜True⌝⦄ x ⦃post⟨fun _ => ⌜True⌝, fun f => ⌜Call.isContained f = false⌝⟩⦄

theorem Uncontained.of_error {x : Except Fault α} (hx : Uncontained x) {f : Fault}
    (h : x = .error f) : Call.isContained f = false :=
  Except.of_wp_eq h (fun r => ∀ f, r = .error f → Call.isContained f = false)
    (by mvcgen [hx] <;> simp_all) f rfl

theorem RunsUncontained.of_error {σ : Type} {x : EStateM Fault σ α} (hx : RunsUncontained x)
    {s s' : σ} {f : Fault} (h : x s = .error f s') : Call.isContained f = false :=
  EStateM.of_wp_run_eq h (fun r => ∀ f s, r = .error f s → Call.isContained f = false)
    (by mvcgen [hx] <;> simp_all) f s' rfl

theorem RunsUncontained.intro {σ : Type} {x : EStateM Fault σ α}
    (h : ∀ s f s', x s = .error f s' → Call.isContained f = false) : RunsUncontained x := by
  intro s _
  simp only [wp, PredTrans.apply]
  cases hx : x s with
  | ok a s' => simp [EStateM.run, hx]
  | error f s' => simpa [EStateM.run, hx] using h s f s' hx

theorem Uncontained.map {x : Except Fault α} (hx : Uncontained x) (g : α → β) :
    Uncontained (x.map g) := by
  cases x with
  | ok a => mvcgen [Except.map]
  | error f =>
    have hf := hx.of_error rfl
    mvcgen [Except.map]

/-! ### Numbers and texts -/

@[spec] theorem Number.toFloat_uncontained (n : Number) : Uncontained n.toFloat := by
  mvcgen [toFloat]

@[spec] theorem Number.lift_uncontained (onInts onFloats) (a b : Number) :
    Uncontained (Number.lift onInts onFloats a b) := by
  mvcgen [lift]

@[spec] theorem Number.text_uncontained (style : FloatStyle) (n : Number) :
    Uncontained (n.text style) := by
  mvcgen [text, integerText]

@[spec] theorem Vector3.texts_uncontained (v : Vector3) : Uncontained v.texts := by
  mvcgen [texts]

@[spec] theorem Key.display_uncontained (k : Key) : Uncontained k.display := by
  mvcgen [display]

@[spec] theorem Key.json_uncontained (k : Key) : Uncontained k.json := by
  mvcgen [json]

namespace Tree

@[spec] theorem display_uncontained (t : Tree) (room : Nat) : Uncontained (t.display room) := by
  apply display.induct (fun t room => Uncontained (t.display room))
    (fun es room => Uncontained (displayEntries es room))
    (fun ts room => Uncontained (displayList ts room))
  all_goals
    intros
    mvcgen [display, displayList, displayEntries, Vector3.display, *]

@[spec] theorem json_uncontained (t : Tree) (room : Nat) : Uncontained (t.json room) := by
  apply json.induct (fun t room => Uncontained (t.json room))
    (fun es room => Uncontained (jsonEntries es room))
    (fun ts room => Uncontained (jsonList ts room))
  all_goals
    intros
    mvcgen [json, jsonList, jsonEntries, Vector3.text, *]

@[spec] theorem plain_uncontained (t : Tree) (room : Nat) : Uncontained (t.plain room) := by
  mvcgen [plain, Vector3.text]

@[spec] theorem jsonOrDisplay_uncontained (t : Tree) (room : Nat) :
    Uncontained (t.jsonOrDisplay room) := by
  mvcgen [jsonOrDisplay]

@[spec] theorem scriptText_uncontained (t : Tree) (room : Nat) :
    Uncontained (t.scriptText room) := by
  mvcgen [scriptText]

end Tree

@[spec] theorem Literal.readQuoted_uncontained (room : Nat) (cs : List Char) :
    Uncontained (Literal.readQuoted room cs) := by
  mvcgen [readQuoted]

@[spec] theorem Literal.readWhole_uncontained (cs : List Char) :
    Uncontained (Literal.readWhole cs) := by
  mvcgen [readWhole]

@[spec] theorem Literal.read_uncontained (room : Nat) (s : String) :
    Uncontained (Literal.read room s) := by
  unfold read
  generalize Text.trimChars s.toList = cs
  mvcgen

@[spec] theorem Heap.literal_uncontained (h : Heap) (room : Nat) (v : Value) :
    Uncontained (h.literal room v) := by
  mvcgen [literal]

/-! ### Comparisons -/

namespace Heap

variable {same : Value → Value → Except Fault Bool}

theorem allSame_uncontained (hs : ∀ v w, Uncontained (same v w)) (vs ws : List Value) :
    Uncontained (allSame same vs ws) := by
  fun_induction allSame same vs ws with
  | case1 => mvcgen
  | case2 v vs w ws ih => mvcgen [hs, ih]
  | case3 => mvcgen

theorem allMatched_uncontained (hs : ∀ v w, Uncontained (same v w)) (other : Dict Key Value)
    (es : List (Key × Value)) : Uncontained (allMatched same other es) := by
  fun_induction allMatched same other es with
  | case1 => mvcgen
  | case2 => mvcgen
  | case3 k v rest w hw ih => mvcgen [hs, ih]

@[spec] theorem same_uncontained (h : Heap) (room : Nat) (v w : Value) :
    Uncontained (h.same room v w) := by
  induction room using Nat.strong_induction_on generalizing v w with
  | _ room ih =>
    fun_cases same h room v w with
    | case3 a b hne room vs ws => exact allSame_uncontained (ih room room.lt_succ_self) vs ws
    | case5 a b hne room vs ws =>
      exact allMatched_uncontained (ih room room.lt_succ_self) ws vs.entries
    | _ => mvcgen

end Heap

@[spec] theorem Comparison.holds_uncontained (h : Heap) (room : Nat) (v : Value) (op : Comparison)
    (w : Value) : Uncontained (op.holds h room v w) := by
  mvcgen [holds, Heap.equal]

/-! ### Loops -/

theorem NumericLoop.advance_uncontained (l : NumericLoop) : Uncontained l.advance := by
  mvcgen [advance, Number.add]

theorem GenericLoop.itemAt_uncontained (items : List Value) (index : Int) :
    Uncontained (itemAt items index) := by
  mvcgen [itemAt]

theorem GenericLoop.advance_uncontained (h : Heap) (l : GenericLoop) :
    Uncontained (l.advance h).1 := by
  fun_cases advance h l with
  | case2 => exact (itemAt_uncontained _ _).map _
  | _ => mvcgen

/-! ### Evaluation -/

namespace Eval

@[spec] theorem lift_uncontained {e : Except Fault α} (he : Uncontained e) :
    RunsUncontained (lift e) := by
  cases e with
  | ok a => mvcgen [lift]
  | error f =>
    have hf := he.of_error rfl
    mvcgen [lift]

@[spec] theorem ask_uncontained {f : Heap → Nat → Except Fault α}
    (hf : ∀ h room, Uncontained (f h room)) : RunsUncontained (ask f) := by
  mvcgen [ask, hf]

@[spec] theorem display_uncontained (v : Value) : RunsUncontained (display v) :=
  ask_uncontained fun h room => (h.tree v).display_uncontained room

@[spec] theorem plain_uncontained (v : Value) : RunsUncontained (plain v) :=
  ask_uncontained fun h room => (h.tree v).plain_uncontained room

@[spec] theorem scriptText_uncontained (v : Value) : RunsUncontained (scriptText v) :=
  ask_uncontained fun h room => (h.tree v).scriptText_uncontained room

@[spec] theorem literal_uncontained (v : Value) : RunsUncontained (literal v) := by
  mvcgen [literal]

@[spec] theorem toNumber?_uncontained (v : Value) : RunsUncontained (toNumber? v) := by
  mvcgen [toNumber?, newNumber]

end Eval

@[spec] theorem Source.resolve_uncontained (scope : Scope) (s : Source) :
    RunsUncontained (s.resolve scope) := by
  mvcgen [resolve, Eval.kindName, Eval.warn]

@[spec] theorem Source.resolveAll_uncontained (scope : Scope) (sources : List Source) :
    RunsUncontained (resolveAll scope sources) := by
  induction sources with
  | nil => mvcgen [resolveAll]
  | cons s rest ih => mvcgen [resolveAll, ih]

@[spec] theorem readOperand_uncontained (scope : Scope) (useVariable : Bool) (name : Option String)
    (given absent : Value) : RunsUncontained (readOperand scope useVariable name given absent) := by
  mvcgen [readOperand]

@[spec] theorem headerOperand_uncontained (scope : Scope) (kind : SourceKind)
    (given absent : Value) : RunsUncontained (headerOperand scope kind given absent) := by
  mvcgen [headerOperand]

theorem Condition.eval_uncontained (c : Condition) (scope : Scope) :
    RunsUncontained (c.eval scope) := by
  mvcgen [eval]

theorem NumericFor.eval_uncontained (c : NumericFor) (scope : Scope) :
    RunsUncontained (c.eval scope) := by
  mvcgen [eval]

theorem GenericFor.eval_uncontained (c : GenericFor) (scope : Scope) :
    RunsUncontained (c.eval scope) := by
  mvcgen [eval, Eval.table?, Eval.kindName]

theorem GiveBack.value_uncontained (c : GiveBack) (scope : Scope) :
    RunsUncontained (c.value scope) := by
  mvcgen [value, Eval.warn]

/-! ### Leaves -/

theorem SetVariable.eval_uncontained (c : SetVariable) (scope : Scope) :
    RunsUncontained (c.eval scope) := by
  mvcgen [eval, newValue, Eval.warn]

theorem ReadVariable.eval_uncontained (c : ReadVariable) (scope : Scope) :
    RunsUncontained (c.eval scope) := by
  mvcgen [eval]

theorem Print.eval_uncontained (c : Print) (scope : Scope) :
    RunsUncontained (c.eval scope) := by
  mvcgen [eval, message?]

@[spec] theorem Operation.apply_uncontained (op : Operation) (a b : Number) :
    Uncontained (op.apply a b) := by
  mvcgen [apply, Number.add, Number.sub, Number.mul, Number.mod, Number.div]

@[spec] theorem Arithmetic.operand_uncontained (scope : Scope) (useVariable : Bool)
    (name : Option String) (given : Value) :
    RunsUncontained (operand scope useVariable name given) := by
  mvcgen [operand, Eval.warn]

theorem Arithmetic.eval_uncontained (c : Arithmetic) (scope : Scope) :
    RunsUncontained (c.eval scope) := by
  mvcgen [eval, Eval.newNumber, Eval.warn]

theorem Wait.eval_uncontained (c : Wait) (scope : Scope) :
    RunsUncontained (c.eval scope) := by
  mvcgen [eval, Eval.warn]

namespace Conversion

variable (c : Conversion) (scope : Scope)

@[spec] theorem input_uncontained : RunsUncontained (c.input scope) := by
  mvcgen [input]

theorem withInput_uncontained (action : String) {go : String → Value → Eval Effect}
    (hgo : ∀ name v, RunsUncontained (go name v)) :
    RunsUncontained (c.withInput action scope go) := by
  mvcgen [withInput, hgo]

@[spec] theorem usedBase_uncontained : RunsUncontained c.usedBase := by
  have htext (base : Base) : Uncontained base.text? := by
    mvcgen [Base.text?, Number.integerText]
  have hdisplay (base : Base) : Uncontained base.display := by
    mvcgen [Base.display, Number.integerText]
  mvcgen [usedBase, usedBase.ignore, Eval.warn, htext, hdisplay]

theorem typeCheck_uncontained : RunsUncontained (c.typeCheck scope) :=
  c.withInput_uncontained scope _ fun _ _ => by mvcgen

theorem toText_uncontained : RunsUncontained (c.toText scope) :=
  c.withInput_uncontained scope _ fun _ _ => by mvcgen

theorem toNumber_uncontained : RunsUncontained (c.toNumber scope) :=
  c.withInput_uncontained scope _ fun _ _ => by mvcgen

end Conversion

@[spec] theorem MakeVector.coordinate_uncontained (scope : Scope) (axis : String)
    (useVariable : Bool) (source : Value) :
    RunsUncontained (coordinate scope axis useVariable source) := by
  mvcgen [coordinate, Eval.warn]

theorem MakeVector.eval_uncontained (c : MakeVector) (scope : Scope) :
    RunsUncontained (c.eval scope) := by
  mvcgen [eval, vector]

@[spec] theorem Concatenate.part_uncontained (scope : Scope) (useVariable : Bool)
    (name : Option String) (given : Value) :
    RunsUncontained (part scope useVariable name given) := by
  mvcgen [part]

theorem Concatenate.eval_uncontained (c : Concatenate) (scope : Scope) :
    RunsUncontained (c.eval scope) := by
  mvcgen [eval]

@[spec] theorem FormatText.fill_uncontained (h : Heap) (room : Nat) (ps : List Piece)
    (args : List Value) : Uncontained (fill h room ps args) := by
  fun_induction fill h room ps args with
  | case1 => mvcgen
  | case2 args c ps ih => mvcgen [ih]
  | case3 args ps ih => mvcgen [ih, Heap.scriptText]

theorem FormatText.eval_uncontained (c : FormatText) (scope : Scope) :
    RunsUncontained (c.eval scope) := by
  mvcgen [eval, Eval.warn]

@[spec] theorem TextLength.bytes_uncontained (s : String) : Uncontained (bytes s) := by
  mvcgen [bytes]

theorem TextLength.eval_uncontained (c : TextLength) (scope : Scope) :
    RunsUncontained (c.eval scope) := by
  mvcgen [eval]

@[spec] theorem resolveKey_uncontained (scope : Scope) (type : KeyType) (given : Value) :
    RunsUncontained (resolveKey scope type given) := by
  mvcgen [resolveKey]

@[spec] theorem resolveValue_uncontained (scope : Scope) (kind : SourceKind) (given : Value) :
    RunsUncontained (resolveValue scope kind given) := by
  mvcgen [resolveValue]

@[spec] theorem Table.get?_uncontained (t : Table) (k : Key) : Uncontained (t.get? k) := by
  mvcgen [get?, arraySlot]

@[spec] theorem Table.put?_uncontained (t : Table) (k : Key) (v : Value) :
    Uncontained (t.put? k v) := by
  mvcgen [put?, arraySlot]

theorem CreateTable.eval_uncontained (c : CreateTable) (scope : Scope) :
    RunsUncontained (c.eval scope) := by
  mvcgen [eval, Eval.alloc]

theorem SetTableValue.eval_uncontained (c : SetTableValue) (scope : Scope) :
    RunsUncontained (c.eval scope) := by
  mvcgen [eval, write]

theorem GetTableValue.eval_uncontained (c : GetTableValue) (scope : Scope) :
    RunsUncontained (c.eval scope) := by
  mvcgen [eval, lookUp, Eval.table?]

theorem InsertIntoTable.eval_uncontained (c : InsertIntoTable) (scope : Scope) :
    RunsUncontained (c.eval scope) := by
  mvcgen [eval, Eval.table?]

theorem GetTableLength.eval_uncontained (c : GetTableLength) (scope : Scope) :
    RunsUncontained (c.eval scope) := by
  mvcgen [eval, Eval.table?]

theorem ServerEvent.eval_uncontained (c : ServerEvent) (scope : Scope) :
    RunsUncontained (c.eval scope) := by
  mvcgen [eval, Event.toServer, Event.argumentsText]

theorem ClientEvent.eval_uncontained (c : ClientEvent) (scope : Scope) :
    RunsUncontained (c.eval scope) := by
  mvcgen [eval, target, Event.toClient, Event.argumentsText, Heap.jsonOrDisplay, Number.isFinite]

theorem Leaf.eval_uncontained (l : Leaf) (scope : Scope) : RunsUncontained (l.eval scope) := by
  cases l with
  | setVariable c => exact c.eval_uncontained scope
  | readVariable c => exact c.eval_uncontained scope
  | print c => exact c.eval_uncontained scope
  | arithmetic c => exact c.eval_uncontained scope
  | wait c => exact c.eval_uncontained scope
  | typeCheck c => exact c.typeCheck_uncontained scope
  | toText c => exact c.toText_uncontained scope
  | toNumber c => exact c.toNumber_uncontained scope
  | makeVector c => exact c.eval_uncontained scope
  | concatenate c => exact c.eval_uncontained scope
  | formatText c => exact c.eval_uncontained scope
  | textLength c => exact c.eval_uncontained scope
  | createTable c => exact c.eval_uncontained scope
  | setTableValue c => exact c.eval_uncontained scope
  | getTableValue c => exact c.eval_uncontained scope
  | insertIntoTable c => exact c.eval_uncontained scope
  | getTableLength c => exact c.eval_uncontained scope
  | serverEvent c => exact c.eval_uncontained scope
  | clientEvent c => exact c.eval_uncontained scope

/-! ### Handlers -/

theorem Exec.evaluate_uncontained {f : Scope → Eval α} (hf : ∀ scope, RunsUncontained (f scope)) :
    RunsUncontained (Exec.evaluate f) := by
  refine .intro fun c e c' h => ?_
  unfold Exec.evaluate at h
  dsimp only at h
  split at h
  · cases h
  · next e d he =>
    cases h
    exact (hf _).of_error he

@[spec] theorem HeaderOutcome.apply_uncontained (o : HeaderOutcome) : RunsUncontained o.apply := by
  mvcgen [apply]

/-- The errors of a called graph that a caller contains do not come out of the call. -/
@[spec] theorem Call.invoke_uncontained (caller : Caller) (name key : String) (args : List Value) :
    RunsUncontained (Call.invoke caller name key args) := by
  refine .intro fun c e c' h => ?_
  unfold Call.invoke at h
  split at h
  · cases h
  · split at h
    · cases h
    · next hf =>
      cases h
      simpa using hf

theorem Handler.run_uncontained (handler : Handler) (start : String) (caller : Caller) :
    RunsUncontained (handler.run start caller) := by
  cases handler with
  | condition c =>
    have he := Exec.evaluate_uncontained c.eval_uncontained
    mvcgen [run, he]
  | numericFor c =>
    have he := Exec.evaluate_uncontained c.eval_uncontained
    mvcgen [run, he]
  | genericFor c =>
    have he := Exec.evaluate_uncontained c.eval_uncontained
    mvcgen [run, he]
  | breakLoop => mvcgen [run]
  | giveBack c =>
    have he := Exec.evaluate_uncontained c.value_uncontained
    mvcgen [run, GiveBack.run, he]
  | call c =>
    have he := Exec.evaluate_uncontained fun scope =>
      Source.resolveAll_uncontained scope c.arguments
    mvcgen [run, Call.run, he]
  | leaf l =>
    have he := Exec.evaluate_uncontained l.eval_uncontained
    mvcgen [run, Exec.leaf, he]

/-- Evaluating an instruction fails by faults about values only, whatever the graphs do that it
calls. -/
theorem Instruction.evaluate_uncontained (i : Instruction) (start : String) (caller : Caller) :
    RunsUncontained (i.evaluate start caller) := by
  mvcgen [evaluate, Handler.run_uncontained]

end NodeScript
