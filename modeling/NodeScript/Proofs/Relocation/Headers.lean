import NodeScript.Proofs.Relocation.Leaves

/-!
Headers under a relocation: conditions, both kinds of `for` loop, and the configurations of `return`
and `call`. A loop in progress is relocated with the values that it still has to give.
-/

namespace NodeScript

variable {ρ : Relocation} {h h' : Heap}

/-! ### Loops in progress -/

namespace NumericLoop

def move (ρ : Relocation) (l : NumericLoop) : NumericLoop :=
  { l with current := l.current.move ρ, limit := l.limit.move ρ, step := l.step.move ρ }

@[simp] theorem inRange_move (l : NumericLoop) : (l.move ρ).inRange = l.inRange := by
  have hpositive : (Number.int 0).lt (l.step.move ρ) = (Number.int 0).lt l.step :=
    (Number.int 0).lt_move l.step
  simp only [inRange, move, hpositive, Number.le_move]

theorem advance_move (l : NumericLoop) : (l.move ρ).advance = l.advance.map (move ρ) := by
  simp only [advance, move, Number.add, Number.lift_move]
  cases Number.lift (· + ·) (· + ·) l.current l.step <;> rfl

end NumericLoop

def ItemSource.move (ρ : Relocation) : ItemSource → ItemSource
  | .table a => .table (ρ.address a)
  | .fixed items => .fixed (items.map (Value.move ρ))

theorem ItemSource.items_move (hm : h.Moved ρ h') (source : ItemSource) :
    (source.move ρ).items h' = (source.items h).map (Value.move ρ) := by
  cases source with
  | table a =>
    have harray := hm.array? (.table a)
    simp only [items, ItemSource.move]
    rw [← Value.move_table, harray]
    cases h.array? (.table a) <;> rfl
  | fixed items => rfl

namespace GenericLoop

def move (ρ : Relocation) (l : GenericLoop) : GenericLoop :=
  { l with
    source := l.source.map (ItemSource.move ρ)
    pending := l.pending.map (List.map fun (k, v) => (k.move ρ, v.move ρ)) }

theorem itemAt_move (items : List Value) (index : Int) :
    itemAt (items.map (Value.move ρ)) index = (itemAt items index).map (Value.move ρ) := by
  simp only [itemAt, List.length_map, List.getElem?_map]
  generalize (if index < 0 then index + (items.length : Int) else index) = place
  split
  · rfl
  · cases items[place.toNat]? <;> rfl

theorem advance_move (hm : h.Moved ρ h') (l : GenericLoop) :
    (l.move ρ).advance h' =
      ((l.advance h).1.map (Option.map fun (k, v) => (k.move ρ, v.move ρ)),
        (l.advance h).2.move ρ) := by
  obtain ⟨iteration, keyVariable, valueVariable, source, pending, index, exhausted⟩ := l
  cases exhausted with
  | true => rfl
  | false =>
    cases source with
    | none =>
      cases pending with
      | none => cases iteration <;> rfl
      | some pending => cases iteration <;> cases pending <;> rfl
    | some source =>
      cases iteration with
      | pairs =>
        cases pending with
        | none => rfl
        | some pending => cases pending <;> rfl
      | ipairs =>
        simp only [advance, move, Option.map_some, source.items_move hm, List.length_map,
          itemAt_move, Bool.false_eq_true, if_false]
        split
        · cases itemAt (source.items h) (index + 1) <;> rfl
        · rfl

end GenericLoop

def LoopState.move (ρ : Relocation) : LoopState → LoopState
  | .whileLoop => .whileLoop
  | .numeric loop => .numeric (loop.move ρ)
  | .generic loop => .generic (loop.move ρ)

@[simp] theorem LoopState.kind_move (s : LoopState) : (s.move ρ).kind = s.kind := by
  cases s <;> rfl

def LoopFrame.move (ρ : Relocation) (f : LoopFrame) : LoopFrame :=
  { f with state := f.state.move ρ }

def LoopStack.move (ρ : Relocation) (stack : LoopStack) : LoopStack :=
  stack.map (LoopFrame.move ρ)

namespace LoopStack

theorem pushIfNew_move (stack : LoopStack) (frame : LoopFrame) :
    ((stack.move ρ).pushIfNew (frame.move ρ)).2 = (stack.pushIfNew frame).2.move ρ := by
  cases stack with
  | nil => rfl
  | cons top rest =>
    change (if top.start = frame.start then _ else _ : Bool × LoopStack).2 =
      LoopStack.move ρ (if top.start = frame.start then _ else _ : Bool × LoopStack).2
    split <;> rfl

theorem popIfStart_move (stack : LoopStack) (start : Int) :
    ((stack.move ρ).popIfStart start).2 = (stack.popIfStart start).2.move ρ := by
  cases stack with
  | nil => rfl
  | cons top rest =>
    change (if top.start = start then _ else _ : Option LoopFrame × LoopStack).2 =
      LoopStack.move ρ (if top.start = start then _ else _ : Option LoopFrame × LoopStack).2
    split <;> rfl

theorem expect_move (stack : LoopStack) (kind : LoopKind) (index : Int) (terminator : String) :
    (stack.move ρ).expect kind index terminator =
      (stack.expect kind index terminator).map (LoopFrame.move ρ) := by
  cases stack with
  | nil => rfl
  | cons top rest =>
    have hkind : (top.move ρ).state.kind = top.state.kind := top.state.kind_move
    simp only [move, List.map_cons, expect, hkind]
    split <;> rfl

theorem describe_move (stack : LoopStack) : (stack.move ρ).describe = stack.describe := by
  simp only [describe, move, ← List.map_reverse, List.map_map]
  congr 2
  funext frame
  simp [LoopFrame.move]

end LoopStack

def LoopEntry.move (ρ : Relocation) : LoopEntry → LoopEntry
  | .skip => .skip
  | .numeric loop => .numeric (loop.move ρ)
  | .generic loop => .generic (loop.move ρ)

def HeaderOutcome.move (ρ : Relocation) : HeaderOutcome → HeaderOutcome
  | .skip => .skip
  | .enter bindings entry => .enter (bindings.map fun (name, v) => (name, v.move ρ)) (entry.move ρ)
  | .refused message => .refused message

/-! ### Conditions and loop headers -/

namespace Condition

def move (ρ : Relocation) (c : Condition) : Condition :=
  { c with lhs := c.lhs.move ρ, rhs := c.rhs.move ρ }

theorem decoder_moves : Decoder.Moves ρ (move ρ) decoder decoder := by
  refine .seq (.seq (.seq (.seq (.map ?_ Decoder.relates_sourceKind) (Decoder.moves_any rfl))
    (Decoder.relates_text _)) Decoder.relates_sourceKind) (Decoder.moves_any rfl)
  rintro lhsKind _ rfl lhs _ rfl operator _ rfl rhsKind _ rfl rhs _ rfl
  rfl

theorem mimics_eval (c : Condition) (scope : Scope) :
    Eval.Mimics ρ id (c.eval scope) ((c.move ρ).eval (scope.move ρ)) := by
  refine .bind (mimics_headerOperand scope c.lhsKind c.lhs .nil) fun lhs => ?_
  refine .bind (mimics_headerOperand scope c.rhsKind c.rhs .nil) fun rhs => ?_
  refine .bindSame (Eval.mimics_askSame fun room hm => hm.holds room lhs _ rhs) fun met => ?_
  exact .bindSame (Eval.mimics_display lhs) fun _ =>
    .bindSame (Eval.mimics_display rhs) fun _ => .pure rfl

end Condition

namespace NumericFor

def move (ρ : Relocation) (c : NumericFor) : NumericFor :=
  { c with start := c.start.move ρ, finish := c.finish.move ρ, step := c.step.move ρ }

theorem decoder_moves : Decoder.Moves ρ (move ρ) decoder decoder := by
  refine .seq (.seq (.seq (.seq (.seq (.seq (.map ?_ (Decoder.relates_text _))
    (Decoder.moves_any rfl)) Decoder.relates_sourceKind) (Decoder.moves_any rfl))
    Decoder.relates_sourceKind) (Decoder.moves_any rfl)) Decoder.relates_sourceKind
  rintro name _ rfl start _ rfl startKind _ rfl finish _ rfl finishKind _ rfl step _ rfl
    stepKind _ rfl
  rfl

theorem mimics_eval (c : NumericFor) (scope : Scope) :
    Eval.Mimics ρ (HeaderOutcome.move ρ) (c.eval scope) ((c.move ρ).eval (scope.move ρ)) := by
  refine .bind (mimics_headerOperand scope c.startKind c.start (.int 0)) fun start => ?_
  refine .bind (mimics_headerOperand scope c.finishKind c.finish (.int 0)) fun finish => ?_
  refine .bind (mimics_headerOperand scope c.stepKind c.step (.int 1)) fun step => ?_
  rw [start.toNumber?_move, finish.toNumber?_move, step.toNumber?_move]
  cases start.toNumber? with
  | none => exact .pure rfl
  | some current =>
    cases finish.toNumber? with
    | none => exact .pure rfl
    | some limit =>
      cases step.toNumber? with
      | none => exact .pure rfl
      | some step =>
        have hrange := NumericLoop.inRange_move (ρ := ρ)
          ⟨nameOr c.controlVariable "i", current, limit, step⟩
        simp only [NumericLoop.move] at hrange
        simp only [Option.map_some, Number.isZero_move, move, hrange]
        split
        · exact .pure rfl
        · split <;> exact .pure rfl

end NumericFor

namespace GenericFor

theorem decoder_moves : Decoder.Moves ρ id decoder decoder := by
  refine .seq (.seq (.seq (.map ?_ Decoder.relates_textOrNil) (Decoder.relates_choice _ _))
    Decoder.relates_textOrNil) (Decoder.relates_text _)
  rintro name _ rfl iteration _ rfl key _ rfl value _ rfl
  rfl

theorem itemAt?_move (d : Dict Key Value) (index : Nat) :
    itemAt? (d.move ρ) index = (itemAt? d index).map (Value.move ρ) := by
  have hnumber := d.get?_move (ρ := ρ) (.number (.int index))
  have htext := d.get?_move (ρ := ρ) (.text (toString index))
  simp only [Key.move, Number.move_int] at hnumber htext
  simp only [itemAt?, hnumber, htext]
  cases d.get? (.number (.int index)) <;> rfl

theorem consecutiveFrom_move (d : Dict Key Value) (count index : Nat) :
    consecutiveFrom (d.move ρ) count index =
      (consecutiveFrom d count index).map (Value.move ρ) := by
  induction count generalizing index with
  | zero => rfl
  | succ count ih =>
    simp only [consecutiveFrom, itemAt?_move]
    cases itemAt? d index with
    | none => rfl
    | some v => exact congrArg (v.move ρ :: ·) (ih (index + 1))

theorem consecutive_move (d : Dict Key Value) :
    consecutive (d.move ρ) = (consecutive d).map (Value.move ρ) := by
  simp only [consecutive, Dict.size_mapBoth, consecutiveFrom_move]

theorem entries_move (t : Table) :
    entries (t.move ρ) = (entries t).map fun (k, v) => (k.move ρ, v.move ρ) := by
  cases t with
  | array items => simp [entries, Table.move, List.zipIdx_map, Function.comp_def]
  | map d => simp [entries, Table.move, Function.comp_def]

theorem enter_move (c : GenericFor) (a : Nat) (t : Table) :
    c.enter (ρ.address a) (t.move ρ) = (c.enter a t).move ρ := by
  obtain ⟨tableVariable, iteration, keyVariable, valueVariable⟩ := c
  cases iteration with
  | pairs =>
    simp only [enter, entries_move]
    cases entries t <;> rfl
  | ipairs =>
    cases t with
    | array items => cases items <;> rfl
    | map d =>
      simp only [enter, Table.move, consecutive_move]
      cases consecutive d <;> rfl

theorem mimics_eval (c : GenericFor) (scope : Scope) :
    Eval.Mimics ρ (HeaderOutcome.move ρ) (c.eval scope) (c.eval (scope.move ρ)) := by
  simp only [eval, scope.get_move_nil]
  cases givenName? c.tableVariable with
  | none => exact .pure rfl
  | some name =>
    refine .bind (Eval.mimics_table? (scope.get name)) fun table? => ?_
    cases table? with
    | none => exact .bindSame (Eval.mimics_kindName (scope.get name)) fun kind => .pure rfl
    | some found => exact .pure (c.enter_move found.1 found.2)

end GenericFor

/-! ### Returns and calls -/

namespace GiveBack

def move (ρ : Relocation) (c : GiveBack) : GiveBack :=
  { c with returnValue := c.returnValue.move ρ }

theorem decoder_moves : Decoder.Moves ρ (move ρ) decoder decoder := by
  refine .seq (.seq (.map ?_ (Decoder.relates_flag _)) Decoder.relates_textOrNil)
    (Decoder.moves_any rfl)
  rintro use _ rfl name _ rfl value _ rfl
  rfl

theorem mimics_value (c : GiveBack) (scope : Scope) :
    Eval.Mimics ρ (fun (v, source) => (v.move ρ, source)) (c.value scope)
      ((c.move ρ).value (scope.move ρ)) := by
  obtain ⟨useVariable, returnVariable, returnValue⟩ := c
  simp only [value, move, scope.has_move, scope.get_move_nil]
  cases useVariable with
  | false => exact .bind (Eval.mimics_literal returnValue) fun v => .pure rfl
  | true =>
    cases givenName? returnVariable with
    | none => exact .bind (Eval.mimics_literal returnValue) fun v => .pure rfl
    | some name =>
      dsimp only
      split
      · exact .bindSame (Eval.mimics_warn _) fun _ => .pure rfl
      · exact .pure rfl

end GiveBack

namespace Call

def move (ρ : Relocation) (c : Call) : Call :=
  { c with arguments := c.arguments.map (Source.move ρ) }

theorem decoder_moves (hm : h.Moved ρ h') : Decoder.Moves ρ (move ρ) (decoder h) (decoder h') := by
  refine .seq (.seq (.map ?_ Decoder.relates_textOrNil) (Decoder.moves_sources hm))
    (Decoder.relates_text _)
  rintro name _ rfl arguments _ rfl result _ rfl
  rfl

end Call

/-! ### All handlers -/

namespace Handler

def move (ρ : Relocation) : Handler → Handler
  | .condition c => .condition (c.move ρ)
  | .numericFor c => .numericFor (c.move ρ)
  | .genericFor c => .genericFor c
  | .breakLoop => .breakLoop
  | .giveBack c => .giveBack (c.move ρ)
  | .call c => .call (c.move ρ)
  | .leaf l => .leaf (l.move ρ)

theorem decoder_moves (hm : h.Moved ρ h') (kind : HandlerKind) :
    Decoder.Moves ρ (move ρ) (decoder h kind) (decoder h' kind) := by
  cases kind with
  | condition => exact Condition.decoder_moves.map fun _ _ h => congrArg _ h
  | numericFor => exact NumericFor.decoder_moves.map fun _ _ h => congrArg _ h
  | genericFor => exact GenericFor.decoder_moves.map fun _ _ h => congrArg _ h
  | breakLoop => exact fun _ => .valid rfl
  | giveBack => exact GiveBack.decoder_moves.map fun _ _ h => congrArg _ h
  | call => exact (Call.decoder_moves hm).map fun _ _ h => congrArg _ h
  | leaf kind => exact (Leaf.decoder_moves hm kind).map fun _ _ h => congrArg _ h

end Handler

end NodeScript
