import NodeScript.Proofs.Relocation.Decoding
import NodeScript.Proofs.Relocation.Evaluation

/-!
Leaves and headers under a relocation: for each of them, how its configuration is relocated, that
reading it from relocated fields gives that, and that its evaluation is mimicked.
-/

namespace NodeScript

variable {ρ : Relocation} {h h' : Heap} {α β : Type}

/-! ### Operands -/

theorem validNameOf?_move (v : Value) : validNameOf? (v.move ρ) = validNameOf? v := by
  cases v <;> rfl

theorem Eval.mimics_refusal (scope : Scope) (action message : String) {extra : Record}
    (hx : extra.move ρ = extra) :
    Eval.Mimics ρ (Effect.move ρ) (Pure.pure (Effect.refusal scope action message extra))
      (Pure.pure (Effect.refusal (scope.move ρ) action message extra)) :=
  .pure (Effect.move_refusal scope action message hx).symm

namespace Source

theorem mimics_resolve (scope : Scope) (s : Source) :
    Eval.Mimics ρ (Value.move ρ) (s.resolve scope) ((s.move ρ).resolve (scope.move ρ)) := by
  obtain ⟨kind, value⟩ := s
  cases kind with
  | literal => exact Eval.mimics_literal value
  | _ =>
    have hwarn (v : Value) : Eval.Mimics ρ (Value.move ρ)
        (do
          let kind ← Eval.kindName v
          Eval.warn s!"Expected a variable name for argument, got {kind}"
          return .nil)
        (do
          let kind ← Eval.kindName (v.move ρ)
          Eval.warn s!"Expected a variable name for argument, got {kind}"
          return .nil) :=
      .bindSame (Eval.mimics_kindName v) fun _ => .bindSame (Eval.mimics_warn _) fun _ => .pure rfl
    cases value with
    | text name => exact .pure (scope.get_move_nil name)
    | _ => exact hwarn _

theorem mimics_resolveAll (scope : Scope) (sources : List Source) :
    Eval.Mimics ρ (List.map (Value.move ρ)) (resolveAll scope sources)
      (resolveAll (scope.move ρ) (sources.map (move ρ))) := by
  induction sources with
  | nil => exact .pure rfl
  | cons s rest ih =>
    exact .bind (mimics_resolve scope s) fun v => .bind ih fun vs => .pure rfl

end Source

theorem mimics_readOperand (scope : Scope) (useVariable : Bool) (name : Option String)
    (given absent : Value) :
    Eval.Mimics ρ (Value.move ρ) (readOperand scope useVariable name given absent)
      (readOperand (scope.move ρ) useVariable name (given.move ρ) (absent.move ρ)) := by
  unfold readOperand
  split
  · exact .pure (scope.get_move _ absent)
  · exact Eval.mimics_literal given

theorem mimics_headerOperand (scope : Scope) (kind : SourceKind) (given absent : Value) :
    Eval.Mimics ρ (Value.move ρ) (headerOperand scope kind given absent)
      (headerOperand (scope.move ρ) kind (given.move ρ) (absent.move ρ)) := by
  cases kind with
  | literal => exact Eval.mimics_literal given
  | _ => cases given <;> exact .pure (scope.get_move _ absent)

/-! ### Variables -/

namespace SetVariable

def move (ρ : Relocation) (c : SetVariable) : SetVariable := { c with value := c.value.move ρ }

theorem decoder_moves : Decoder.Moves ρ (move ρ) decoder decoder := by
  refine .seq (.seq (.map ?_ Decoder.relates_textOrNil) (Decoder.moves_any rfl))
    (Decoder.relates_choice _ _)
  rintro name _ rfl value _ rfl dataType _ rfl
  rfl

theorem mimics_newValue (c : SetVariable) (name : String) (scope : Scope) :
    Eval.Mimics ρ (Value.move ρ) (c.newValue name scope)
      ((c.move ρ).newValue name (scope.move ρ)) := by
  obtain ⟨variableName, value, dataType⟩ := c
  have hplain := Eval.mimics_plain (ρ := ρ) value
  cases dataType with
  | number =>
    refine Eval.mimics_withNumber value (fun n => .pure rfl) ?_
    exact .bindSame hplain fun shown => .bindSame (Eval.mimics_warn _) fun _ => .pure rfl
  | boolean =>
    cases value with
    | bool b => exact .pure rfl
    | _ => exact .bindSame hplain fun shown => .pure rfl
  | nil => exact .pure rfl
  | literal => exact Eval.mimics_literal value
  | string =>
    cases value with
    | nil => exact .pure rfl
    | _ => exact .bindSame hplain fun shown => .pure rfl
  | _ => exact .bindSame hplain fun shown => .pure (scope.get_move_nil shown)

theorem mimics_eval (c : SetVariable) (scope : Scope) :
    Eval.Mimics ρ (Effect.move ρ) (c.eval scope) ((c.move ρ).eval (scope.move ρ)) := by
  simp only [eval, move]
  cases validName? c.name with
  | none => exact Eval.mimics_refusal scope _ _ rfl
  | some name => exact .bind (c.mimics_newValue name scope) fun v => .pure rfl

end SetVariable

namespace ReadVariable

def move (ρ : Relocation) (c : ReadVariable) : ReadVariable :=
  { c with defaultValue := c.defaultValue.move ρ }

theorem decoder_moves : Decoder.Moves ρ (move ρ) decoder decoder := by
  refine .seq (.seq (.map ?_ (Decoder.relates_text _)) (Decoder.moves_any rfl))
    Decoder.relates_textOrNil
  rintro name _ rfl value _ rfl result _ rfl
  rfl

theorem mimics_eval (c : ReadVariable) (scope : Scope) :
    Eval.Mimics ρ (Effect.move ρ) (c.eval scope) ((c.move ρ).eval (scope.move ρ)) := by
  refine .bind (Eval.mimics_literal c.defaultValue) fun absent => .pure ?_
  simp only [move, scope.get_move, scope.has_move]
  cases givenName? c.resultVariable <;> rfl

end ReadVariable

namespace Print

def move (ρ : Relocation) (c : Print) : Print := { c with message := c.message.move ρ }

theorem decoder_moves : Decoder.Moves ρ (move ρ) decoder decoder := by
  refine .seq (.seq (.seq (.seq (.map ?_ (Decoder.moves_any rfl)) (Decoder.relates_flag _))
    Decoder.relates_textOrNil) (Decoder.relates_flag _)) (Decoder.relates_text _)
  rintro message _ rfl use _ rfl name _ rfl console _ rfl color _ rfl
  rfl

theorem mimics_message? (c : Print) (scope : Scope) :
    Eval.Mimics ρ id (c.message? scope) ((c.move ρ).message? (scope.move ρ)) := by
  obtain ⟨message, useVariable, messageVariable, toConsole, color⟩ := c
  have hliteral : Eval.Mimics ρ id
      (message? ⟨message, false, messageVariable, toConsole, color⟩ scope)
      (message? ⟨message.move ρ, false, messageVariable, toConsole, color⟩ (scope.move ρ)) := by
    have htext := Eval.mimics_scriptText (ρ := ρ) message
    cases message with
    | nil => exact .pure rfl
    | _ => exact .bindSame htext fun shown => .pure rfl
  cases useVariable with
  | false => exact hliteral
  | true =>
    simp only [message?, move, scope.has_move, scope.get_move_nil] at hliteral ⊢
    cases givenName? messageVariable with
    | none => exact hliteral
    | some name =>
      dsimp only
      split
      · exact .bindSame (Eval.mimics_scriptText _) fun shown => .pure rfl
      · exact .pure rfl

theorem mimics_eval (c : Print) (scope : Scope) :
    Eval.Mimics ρ (Effect.move ρ) (c.eval scope) ((c.move ρ).eval (scope.move ρ)) :=
  .bindSame (c.mimics_message? scope) fun _ => .pure rfl

end Print

/-! ### Arithmetic and waiting -/

def Operation.Result.move (ρ : Relocation) : Operation.Result → Operation.Result
  | .number n => .number (n.move ρ)
  | .undefined reason => .undefined reason

theorem Operation.apply_move (op : Operation) (a b : Number) :
    op.apply (a.move ρ) (b.move ρ) = (op.apply a b).map (Result.move ρ) := by
  have hlift (x : Except Fault Number) :
      (do return Result.number (← x.map (Number.move ρ))) =
        (do return Result.number (← x) : Except Fault Result).map (Result.move ρ) := by
    cases x <;> rfl
  cases op with
  | add => rw [apply, apply, Number.add, Number.lift_move, hlift]
  | subtract => rw [apply, apply, Number.sub, Number.lift_move, hlift]
  | multiply => rw [apply, apply, Number.mul, Number.lift_move, hlift]
  | divide =>
    simp only [apply, Number.isZero_move, Number.div_move, hlift]
    split <;> rfl
  | modulo =>
    simp only [apply, Number.isZero_move, Number.mod, Number.lift_move, hlift]
    split <;> rfl
  | power =>
    simp only [apply, Number.pow_move]
    cases a.pow b <;> rfl
  | unknown name => rfl

namespace Arithmetic

def move (ρ : Relocation) (c : Arithmetic) : Arithmetic :=
  { c with value1 := c.value1.move ρ, value2 := c.value2.move ρ }

theorem decoder_moves : Decoder.Moves ρ (move ρ) decoder decoder := by
  refine .seq (.seq (.seq (.seq (.seq (.seq (.seq (.map ?_ (Decoder.relates_text _))
    (Decoder.moves_any rfl)) (Decoder.moves_any rfl)) (Decoder.relates_flag _))
    Decoder.relates_textOrNil) (Decoder.relates_flag _)) Decoder.relates_textOrNil)
    (Decoder.relates_text _)
  rintro operation _ rfl v₁ _ rfl v₂ _ rfl use₁ _ rfl name₁ _ rfl use₂ _ rfl name₂ _ rfl
    result _ rfl
  rfl

theorem mimics_operand (scope : Scope) (useVariable : Bool) (name : Option String) (given : Value) :
    Eval.Mimics ρ (Number.move ρ) (operand scope useVariable name given)
      (operand (scope.move ρ) useVariable name (given.move ρ)) := by
  refine .bind (mimics_readOperand scope useVariable name given (.int 0)) fun v => ?_
  rw [v.toNumber?_move]
  cases v.toNumber? with
  | some n => exact .pure rfl
  | none =>
    exact .bindSame (Eval.mimics_display given) fun shown =>
      .bindSame (Eval.mimics_warn _) fun _ => .pure rfl

theorem mimics_eval (c : Arithmetic) (scope : Scope) :
    Eval.Mimics ρ (Effect.move ρ) (c.eval scope) ((c.move ρ).eval (scope.move ρ)) := by
  refine .bind (mimics_operand scope c.useVariable1 c.variable1 c.value1) fun a => ?_
  refine .bind (mimics_operand scope c.useVariable2 c.variable2 c.value2) fun b => ?_
  refine .bind (Eval.mimics_lift (Operation.apply_move _ a b)) fun r => ?_
  cases r with
  | number n => exact .bind (Eval.mimics_newNumber n) fun n => .pure rfl
  | undefined reason => exact .bindSame (Eval.mimics_warn reason) fun _ => .pure rfl

end Arithmetic

namespace Wait

def move (ρ : Relocation) (c : Wait) : Wait := { c with duration := c.duration.move ρ }

theorem decoder_moves : Decoder.Moves ρ (move ρ) decoder decoder := by
  refine .seq (.seq (.map ?_ (Decoder.moves_any rfl)) (Decoder.relates_flag _))
    Decoder.relates_textOrNil
  rintro duration _ rfl use _ rfl name _ rfl
  rfl

theorem mimics_eval (c : Wait) (scope : Scope) :
    Eval.Mimics ρ (Effect.move ρ) (c.eval scope) ((c.move ρ).eval (scope.move ρ)) := by
  refine .bind (mimics_readOperand scope c.useVariable c.durationVariable c.duration (.int 0))
    fun v => ?_
  have hfilter : (v.move ρ).toNumber?.filter (fun n => !n.lt (.int 0)) =
      (v.toNumber?.filter fun n => !n.lt (.int 0)).map (Number.move ρ) := by
    have hlt (n : Number) : (n.move ρ).lt (.int 0) = n.lt (.int 0) := n.lt_move (.int 0)
    simp only [v.toNumber?_move, Option.filter_map, Function.comp_def, hlt]
  rw [hfilter]
  cases v.toNumber?.filter fun n => !n.lt (.int 0) with
  | some n => exact .pure rfl
  | none =>
    exact .bindSame (Eval.mimics_display c.duration) fun shown =>
      .bindSame (Eval.mimics_warn _) fun _ => .pure rfl

end Wait

/-! ### Conversions and vectors -/

theorem Base.check_move (v : Value) : Base.check (v.move ρ) = Base.check v := by
  cases v with
  | number n => cases n <;> rfl
  | _ => rfl

namespace Conversion

def move (ρ : Relocation) (c : Conversion) : Conversion :=
  { c with inputValue := c.inputValue.move ρ }

theorem decoder_moves : Decoder.Moves ρ (move ρ) decoder decoder := by
  refine .seq (.seq (.seq (.seq (.map ?_ (Decoder.relates_flag _)) Decoder.relates_textOrNil)
    (Decoder.moves_any rfl)) Decoder.relates_textOrNil)
    (Decoder.relates_optional (Check.orNil_same Base.check_move) _)
  rintro use _ rfl name _ rfl value _ rfl result _ rfl base _ rfl
  rfl

theorem mimics_input (c : Conversion) (scope : Scope) :
    Eval.Mimics ρ (Except.map fun (result, v) => (result, v.move ρ)) (c.input scope)
      ((c.move ρ).input (scope.move ρ)) := by
  simp only [input, move, scope.get_move_nil]
  cases validName? c.resultVariable with
  | none => exact .pure rfl
  | some result =>
    dsimp only
    split
    · cases validName? c.inputVariable <;> exact .pure rfl
    · exact .bind (Eval.mimics_literal c.inputValue) fun v => .pure rfl

theorem mimics_withInput (c : Conversion) (action : String) (scope : Scope)
    {go go' : String → Value → Eval Effect}
    (hgo : ∀ result v, Eval.Mimics ρ (Effect.move ρ) (go result v) (go' result (v.move ρ))) :
    Eval.Mimics ρ (Effect.move ρ) (c.withInput action scope go)
      ((c.move ρ).withInput action (scope.move ρ) go') := by
  refine .bind (c.mimics_input scope) fun r => ?_
  cases r with
  | error message => exact Eval.mimics_refusal scope action message rfl
  | ok r => exact hgo r.1 r.2

theorem mimics_typeCheck (c : Conversion) (scope : Scope) :
    Eval.Mimics ρ (Effect.move ρ) (c.typeCheck scope) ((c.move ρ).typeCheck (scope.move ρ)) := by
  refine c.mimics_withInput _ scope fun result v => .pure ?_
  rw [v.type_move]
  rfl

theorem mimics_toText (c : Conversion) (scope : Scope) :
    Eval.Mimics ρ (Effect.move ρ) (c.toText scope) ((c.move ρ).toText (scope.move ρ)) :=
  c.mimics_withInput _ scope fun _ v =>
    .bindSame (Eval.mimics_scriptText v) fun _ => .pure rfl

theorem mimics_usedBase (c : Conversion) :
    Eval.Mimics ρ id c.usedBase (c.move ρ).usedBase := by
  have hlift (e : Except Fault String) : Eval.Mimics ρ id (Eval.lift e) (Eval.lift e) :=
    Eval.mimics_lift (congrFun Except.map_id e).symm
  have hignore (base : Base) : Eval.Mimics ρ id (usedBase.ignore base) (usedBase.ignore base) :=
    .bindSame (hlift base.display) fun shown => .bindSame (Eval.mimics_warn _) fun _ => .pure rfl
  simp only [usedBase, move]
  cases c.base.filter Base.isGiven with
  | none => exact .pure rfl
  | some base =>
    refine .bindSame (hlift base.text?) fun s => ?_
    split
    · split
      · exact .pure rfl
      · exact hignore base
    · exact hignore base

theorem mimics_toNumber (c : Conversion) (scope : Scope) :
    Eval.Mimics ρ (Effect.move ρ) (c.toNumber scope) ((c.move ρ).toNumber (scope.move ρ)) := by
  refine c.mimics_withInput _ scope fun result v => ?_
  refine .bindSame c.mimics_usedBase fun base => ?_
  cases base with
  | none =>
    refine .bind (g := Value.move ρ) (.pure rfl) fun v => ?_
    refine .bind (Eval.mimics_toNumber? v) fun n? => .pure ?_
    cases n? <;> rfl
  | some base =>
    have htext := Eval.mimics_scriptText (ρ := ρ) v
    have hnumber (s : String) :
        Value.ofOption (((Value.text s).toNumberIn? base).map .number) =
          (Value.ofOption (((Value.text s).toNumberIn? base).map .number)).move ρ := by
      have hmove := (Value.text s).toNumberIn?_move (ρ := ρ) base
      rw [Value.move_text] at hmove
      nth_rewrite 1 [hmove]
      cases (Value.text s).toNumberIn? base <;> rfl
    have hbase : (Value.ofOption (some (.int base))).move ρ = .ofOption (some (.int base)) := rfl
    cases v with
    | text s => exact .pure (by simp [Effect.move, ← hnumber, hbase])
    | _ => exact .bindSame htext fun shown => .pure (by simp [Effect.move, ← hnumber, hbase])

end Conversion

namespace MakeVector

def move (ρ : Relocation) (c : MakeVector) : MakeVector :=
  { c with x := c.x.move ρ, y := c.y.move ρ, z := c.z.move ρ }

theorem decoder_moves : Decoder.Moves ρ (move ρ) decoder decoder := by
  refine .seq (.seq (.seq (.seq (.seq (.seq (.map ?_ Decoder.relates_textOrNil)
    (Decoder.moves_any rfl)) (Decoder.moves_any rfl)) (Decoder.moves_any rfl))
    (Decoder.relates_flag _)) (Decoder.relates_flag _)) (Decoder.relates_flag _)
  rintro result _ rfl x _ rfl y _ rfl z _ rfl useX _ rfl useY _ rfl useZ _ rfl
  rfl

theorem mimics_coordinate (scope : Scope) (axis : String) (useVariable : Bool) (source : Value) :
    Eval.Mimics ρ (Except.map (Number.move ρ)) (coordinate scope axis useVariable source)
      (coordinate (scope.move ρ) axis useVariable (source.move ρ)) := by
  have hwarned (axis : String) : Eval.Mimics ρ (Except.map (Number.move ρ))
      (do
        let shown ← Eval.display source
        Eval.warn s!"Vector3 {axis} coordinate {shown} is not a number. Using 0."
        return .ok (.int 0) : Eval (Except String Number))
      (do
        let shown ← Eval.display (source.move ρ)
        Eval.warn s!"Vector3 {axis} coordinate {shown} is not a number. Using 0."
        return .ok (.int 0)) :=
    .bindSame (Eval.mimics_display source) fun shown =>
      .bindSame (Eval.mimics_warn _) fun _ => .pure rfl
  simp only [coordinate, validNameOf?_move, scope.get_move_nil]
  cases useVariable with
  | false =>
    exact .bind (Eval.mimics_literal source) fun v =>
      Eval.mimics_withNumber v (fun n => .pure rfl) (hwarned axis)
  | true =>
    cases validNameOf? source with
    | none =>
      simp only [pure_bind]
      exact .bindSame (Eval.mimics_plain source) fun shown => .pure rfl
    | some name =>
      exact Eval.mimics_withNumber (scope.get name) (fun n => .pure rfl) (hwarned axis)

theorem mimics_vector (c : MakeVector) (scope : Scope) :
    Eval.Mimics ρ (Except.map (Vector3.move ρ)) (c.vector scope)
      ((c.move ρ).vector (scope.move ρ)) := by
  refine .bind (mimics_coordinate scope "X" c.useVariableX c.x) fun x => ?_
  cases x with
  | error message => exact .pure rfl
  | ok x =>
    refine .bind (mimics_coordinate scope "Y" c.useVariableY c.y) fun y => ?_
    cases y with
    | error message => exact .pure rfl
    | ok y =>
      refine .bind (mimics_coordinate scope "Z" c.useVariableZ c.z) fun z => ?_
      cases z <;> exact .pure rfl

theorem mimics_eval (c : MakeVector) (scope : Scope) :
    Eval.Mimics ρ (Effect.move ρ) (c.eval scope) ((c.move ρ).eval (scope.move ρ)) := by
  simp only [eval, move]
  cases validName? c.resultVariable with
  | none => exact Eval.mimics_refusal scope _ _ rfl
  | some result =>
    refine .bind (c.mimics_vector scope) fun v => ?_
    cases v with
    | error message => exact Eval.mimics_refusal scope _ message rfl
    | ok v => exact .pure rfl

end MakeVector

/-! ### Texts -/

namespace Concatenate

def move (ρ : Relocation) (c : Concatenate) : Concatenate :=
  { c with string1 := c.string1.move ρ, string2 := c.string2.move ρ }

theorem checkScalar_move (v : Value) :
    checkScalar (v.move ρ) = (checkScalar v).map (Value.move ρ) := by
  cases v <;> rfl

theorem decoder_moves : Decoder.Moves ρ (move ρ) decoder decoder := by
  refine .seq (.seq (.seq (.seq (.seq (.seq (.map ?_ (Decoder.moves_optional checkScalar_move rfl))
    (Decoder.moves_optional checkScalar_move rfl)) (Decoder.relates_flag _))
    Decoder.relates_textOrNil) (Decoder.relates_flag _)) Decoder.relates_textOrNil)
    (Decoder.relates_text _)
  rintro s₁ _ rfl s₂ _ rfl use₁ _ rfl name₁ _ rfl use₂ _ rfl name₂ _ rfl result _ rfl
  rfl

theorem mimics_part (scope : Scope) (useVariable : Bool) (name : Option String) (given : Value) :
    Eval.Mimics ρ id (part scope useVariable name given)
      (part (scope.move ρ) useVariable name (given.move ρ)) := by
  have hgiven : (if given.move ρ = .nil then .text "" else given.move ρ) =
      (if given = .nil then .text "" else given : Value).move ρ := by
    simp only [Value.move_eq_nil]
    split <;> rfl
  have hget (name : String) : (scope.move ρ).get name (.text "") =
      (scope.get name (.text "")).move ρ := scope.get_move name (.text "")
  simp only [part, hget, hgiven]
  split <;> exact Eval.mimics_scriptText _

theorem mimics_eval (c : Concatenate) (scope : Scope) :
    Eval.Mimics ρ (Effect.move ρ) (c.eval scope) ((c.move ρ).eval (scope.move ρ)) :=
  .bindSame (mimics_part scope c.useVariable1 c.variable1 c.string1) fun _ =>
    .bindSame (mimics_part scope c.useVariable2 c.variable2 c.string2) fun _ => .pure rfl

end Concatenate

namespace FormatText

def move (ρ : Relocation) (c : FormatText) : FormatText :=
  { c with arguments := c.arguments.map (Source.move ρ) }

theorem decoder_moves (hm : h.Moved ρ h') : Decoder.Moves ρ (move ρ) (decoder h) (decoder h') := by
  refine .seq (.seq (.map ?_ (Decoder.relates_text _)) (Decoder.moves_sources hm))
    Decoder.relates_textOrNil
  rintro format _ rfl arguments _ rfl result _ rfl
  rfl

theorem fill_move (hm : h.Moved ρ h') (room : Nat) (ps : List Piece) (args : List Value) :
    fill h' room ps (args.map (Value.move ρ)) = fill h room ps args := by
  induction ps generalizing args with
  | nil => rfl
  | cons p ps ih =>
    cases p with
    | char c => rw [fill, fill, ih]
    | placeholder =>
      have hhead : (args.map (Value.move ρ)).head?.getD .nil = (args.head?.getD .nil).move ρ := by
        cases args <;> rfl
      rw [fill, fill, hhead, hm.scriptText, ← List.map_tail, ih]

theorem mimics_eval (c : FormatText) (scope : Scope) :
    Eval.Mimics ρ (Effect.move ρ) (c.eval scope) ((c.move ρ).eval (scope.move ρ)) := by
  obtain ⟨format, arguments, resultVariable⟩ := c
  have hmove : move ρ ⟨format, arguments, resultVariable⟩ =
      ⟨format, arguments.map (Source.move ρ), resultVariable⟩ := rfl
  rw [hmove]
  simp only [eval]
  cases validName? resultVariable with
  | none => exact Eval.mimics_refusal scope _ _ rfl
  | some name =>
    refine .bind (Source.mimics_resolveAll scope arguments) fun args => ?_
    refine .bindSame (Eval.mimics_askSame fun room hm => fill_move hm room _ args) fun filled => ?_
    rw [List.length_map]
    split
    · exact .bindSame (Eval.mimics_warn _) fun _ => .pure rfl
    · exact .pure rfl

end FormatText

theorem TextLength.decoder_moves : Decoder.Moves ρ id TextLength.decoder TextLength.decoder := by
  refine .seq (.seq (.seq (.map ?_ Decoder.relates_textOrNil) Decoder.relates_textOrNil)
    (Decoder.relates_flag _)) Decoder.relates_textOrNil
  rintro name _ rfl value _ rfl use _ rfl result _ rfl
  rfl

theorem TextLength.mimics_eval (c : TextLength) (scope : Scope) :
    Eval.Mimics ρ (Effect.move ρ) (c.eval scope) (c.eval (scope.move ρ)) := by
  have hinput : (if c.useVariable then (scope.move ρ).get (c.inputVariable.getD "")
        else .text (c.inputValue.getD "")) =
      (if c.useVariable then scope.get (c.inputVariable.getD "")
        else .text (c.inputValue.getD "") : Value).move ρ := by
    rw [scope.get_move_nil]
    split <;> rfl
  simp only [eval, hinput]
  cases validName? c.resultVariable with
  | none => exact Eval.mimics_refusal scope _ _ rfl
  | some name =>
    dsimp only
    generalize (if c.useVariable then _ else _ : Value) = input
    cases input with
    | text s => exact .bindSame (Eval.mimics_lift (by cases bytes s <;> rfl)) fun _ => .pure rfl
    | _ => exact Eval.mimics_refusal scope _ _ rfl

/-! ### Events -/

namespace Event

theorem argumentsText_move (hm : h.Moved ρ h') (room : Nat) (args : List Value) :
    argumentsText h' room (args.map (Value.move ρ)) = argumentsText h room args := by
  have htree : (args.map (Value.move ρ)).map h'.tree = (args.map h.tree).map (Tree.move ρ) := by
    simp [hm.tree, Function.comp_def]
  have hlist : Tree.list ((args.map (Value.move ρ)).map h'.tree) =
      (Tree.list (args.map h.tree)).move ρ := by
    rw [htree, Tree.move, Tree.moveList_eq_map]
  rw [argumentsText, hlist, Tree.jsonOrDisplay_move]
  rfl

theorem toServer_move (hm : h.Moved ρ h') (room : Nat) (name : String) (args : List Value) :
    toServer h' room name (args.map (Value.move ρ)) =
      (toServer h room name args).map (Record.move ρ) := by
  simp only [toServer, argumentsText_move hm]
  cases argumentsText h room args <;> rfl

theorem toClient_move (hm : h.Moved ρ h') (room : Nat) (name : String) (target : Value)
    (args : List Value) :
    toClient h' room name (target.move ρ) (args.map (Value.move ρ)) =
      (toClient h room name target args).map (Record.move ρ) := by
  simp only [toClient, argumentsText_move hm, hm.jsonOrDisplay]
  cases h.jsonOrDisplay room target with
  | error f => rfl
  | ok shown => cases argumentsText h room args <;> rfl

end Event

namespace ServerEvent

def move (ρ : Relocation) (c : ServerEvent) : ServerEvent :=
  { c with arguments := c.arguments.map (Source.move ρ) }

theorem decoder_moves (hm : h.Moved ρ h') : Decoder.Moves ρ (move ρ) (decoder h) (decoder h') := by
  refine .seq (.map ?_ Decoder.relates_textOrNil) (Decoder.moves_sources hm)
  rintro name _ rfl arguments _ rfl
  rfl

theorem mimics_eval (c : ServerEvent) (scope : Scope) :
    Eval.Mimics ρ (Effect.move ρ) (c.eval scope) ((c.move ρ).eval (scope.move ρ)) := by
  simp only [eval, move]
  cases givenName? c.eventName with
  | none => exact Eval.mimics_refusal scope _ _ rfl
  | some name =>
    refine .bind (Source.mimics_resolveAll scope c.arguments) fun args => ?_
    exact .bind (Eval.mimics_ask fun room hm => Event.toServer_move hm room name args)
      fun r => .pure rfl

end ServerEvent

namespace ClientEvent

def move (ρ : Relocation) (c : ClientEvent) : ClientEvent :=
  { c with arguments := c.arguments.map (Source.move ρ), targetPlayer := c.targetPlayer.move ρ }

theorem decoder_moves (hm : h.Moved ρ h') : Decoder.Moves ρ (move ρ) (decoder h) (decoder h') := by
  refine .seq (.seq (.seq (.map ?_ Decoder.relates_textOrNil) (Decoder.moves_sources hm))
    (Decoder.moves_any rfl)) (Decoder.relates_flag _)
  rintro name _ rfl arguments _ rfl target _ rfl use _ rfl
  rfl

theorem target_move (hm : h.Moved ρ h') (c : ClientEvent) (scope : Scope) :
    (c.move ρ).target (scope.move ρ) h' = (c.target scope h).map (Value.move ρ) := by
  obtain ⟨name, arguments, given, useVariable⟩ := c
  have hliteral (v : Value) :
      target ⟨name, arguments.map (Source.move ρ), v.move ρ, false⟩ (scope.move ρ) h' =
        (target ⟨name, arguments, v, false⟩ scope h).map (Value.move ρ) := by
    simp only [target, hm.array?, Option.isSome_map, v.toNumber?_move]
    split
    · rfl
    · cases v.toNumber? with
      | none => rfl
      | some n =>
        simp only [Option.map_some, n.isFinite_move, n.truncate?_move]
        cases n.isFinite with
        | error f => rfl
        | ok finite => cases finite <;> cases n.truncate? <;> rfl
  cases useVariable with
  | false => exact hliteral given
  | true =>
    cases given with
    | text variableName =>
      have hvariable := hliteral (scope.get variableName broadcastTarget)
      rw [← scope.get_move] at hvariable
      exact hvariable
    | _ => exact hliteral _

theorem mimics_eval (c : ClientEvent) (scope : Scope) :
    Eval.Mimics ρ (Effect.move ρ) (c.eval scope) ((c.move ρ).eval (scope.move ρ)) := by
  have hname : givenName? (c.move ρ).eventName = givenName? c.eventName := rfl
  simp only [eval, hname]
  cases givenName? c.eventName with
  | none => exact Eval.mimics_refusal scope _ _ rfl
  | some name =>
    refine .bind (Source.mimics_resolveAll scope c.arguments) fun args => ?_
    refine .bind (Eval.mimics_ask fun _ hm => c.target_move hm scope) fun target => ?_
    exact .bind (Eval.mimics_ask fun room hm => Event.toClient_move hm room name target args)
      fun r => .pure rfl

end ClientEvent

/-! ### Tables -/

theorem mimics_resolveKey (scope : Scope) (type : KeyType) (given : Value) :
    Eval.Mimics ρ (Except.map (Key.move ρ)) (resolveKey scope type given)
      (resolveKey (scope.move ρ) type (given.move ρ)) := by
  have hplain := Eval.mimics_plain (ρ := ρ) given
  cases type with
  | literal =>
    cases given with
    | nil => exact .pure rfl
    | _ => exact .bindSame hplain fun shown => .pure rfl
  | numberLiteral =>
    refine Eval.mimics_withNumber given (fun n => .pure rfl) ?_
    exact .bindSame hplain fun shown => .pure rfl
  | _ =>
    simp only [resolveKey, validNameOf?_move, scope.get_move_nil]
    cases validNameOf? given with
    | none => exact .bindSame hplain fun shown => .pure rfl
    | some name =>
      have hvariable := Eval.mimics_plain (ρ := ρ) (scope.get name)
      dsimp only
      generalize scope.get name = v at hvariable ⊢
      cases v with
      | text s => exact .pure rfl
      | number n => exact .pure rfl
      | _ => exact .bindSame hvariable fun shown => .pure rfl

theorem mimics_resolveValue (scope : Scope) (kind : SourceKind) (given : Value) :
    Eval.Mimics ρ (Except.map (Value.move ρ)) (resolveValue scope kind given)
      (resolveValue (scope.move ρ) kind (given.move ρ)) := by
  cases kind with
  | literal => exact .bind (Eval.mimics_literal given) fun v => .pure rfl
  | _ =>
    simp only [resolveValue, validNameOf?_move, scope.get_move_nil]
    cases validNameOf? given with
    | none => exact .bindSame (Eval.mimics_plain given) fun shown => .pure rfl
    | some name => exact .pure rfl

theorem arraySlot_move (k : Key) : arraySlot (k.move ρ) = arraySlot k := by
  cases k with
  | number n => simp only [arraySlot, Key.move, n.toFloat_move, n.truncate?_move]
  | _ => rfl

namespace Table

@[simp] theorem size_move (t : Table) : (t.move ρ).size = t.size := by
  cases t with
  | array items => exact List.length_map _
  | map entries => exact Dict.size_mapBoth _ _ entries

theorem get?_move (t : Table) (k : Key) :
    (t.move ρ).get? (k.move ρ) = (t.get? k).map (Option.map (Value.move ρ)) := by
  cases t with
  | array items =>
    simp only [Table.move, get?, arraySlot_move]
    cases arraySlot k with
    | error f => rfl
    | ok slot? =>
      cases slot? with
      | none => rfl
      | some slot =>
        change Except.ok _ = Except.ok _
        split <;> simp
  | map entries => exact congrArg Except.ok (entries.get?_move k)

theorem put?_move (t : Table) (k : Key) (v : Value) :
    (t.move ρ).put? (k.move ρ) (v.move ρ) = (t.put? k v).map (Option.map (Table.move ρ)) := by
  cases t with
  | array items =>
    simp only [Table.move, put?, arraySlot_move, List.length_map]
    cases arraySlot k with
    | error f => rfl
    | ok slot? =>
      cases slot? with
      | none => rfl
      | some slot =>
        change (if _ then _ else if _ then _ else _) =
          Except.map _ (if _ then _ else if _ then _ else _)
        split
        · rfl
        · split
          · have happend : items.map (Value.move ρ) ++ [v.move ρ] =
                (items ++ [v]).map (Value.move ρ) := by simp
            exact congrArg (fun items => Except.ok (some (Table.array items))) happend
          · exact congrArg (fun items => Except.ok (some (Table.array items))) List.map_set.symm
  | map entries =>
    exact congrArg (fun d => Except.ok (some (Table.map d)))
      (Dict.insert_mapBoth Key.beq_move _ entries k v)

end Table

namespace CreateTable

def move (ρ : Relocation) (c : CreateTable) : CreateTable :=
  { c with initialValue := c.initialValue.move ρ }

theorem decoder_moves : Decoder.Moves ρ (move ρ) decoder decoder := by
  refine .seq (.seq (.map ?_ Decoder.relates_textOrNil) (Decoder.relates_choice _ _))
    (Decoder.moves_any rfl)
  rintro name _ rfl type _ rfl value _ rfl
  rfl

theorem mimics_eval (c : CreateTable) (scope : Scope) :
    Eval.Mimics ρ (Effect.move ρ) (c.eval scope) ((c.move ρ).eval (scope.move ρ)) := by
  simp only [eval, move]
  cases validName? c.variableName with
  | none => exact Eval.mimics_refusal scope _ _ (by simp)
  | some name =>
    refine .bind (Eval.mimics_literal c.initialValue) fun v => ?_
    have hempty : c.tableType.empty.move ρ = c.tableType.empty := by
      cases c.tableType <;> rfl
    cases v with
    | table a => exact .pure rfl
    | nil =>
      have halloc := Eval.mimics_alloc (ρ := ρ) c.tableType.empty
      rw [hempty] at halloc
      exact .bind halloc fun v => .pure rfl
    | _ =>
      exact .bindSame (Eval.mimics_display c.initialValue) fun shown =>
        Eval.mimics_refusal scope _ _ rfl

end CreateTable

namespace SetTableValue

def move (ρ : Relocation) (c : SetTableValue) : SetTableValue :=
  { c with keyValue := c.keyValue.move ρ, valueSource := c.valueSource.move ρ }

theorem decoder_moves : Decoder.Moves ρ (move ρ) decoder decoder := by
  refine .seq (.seq (.seq (.seq (.map ?_ Decoder.relates_textOrNil) (Decoder.relates_choice _ _))
    (Decoder.moves_any rfl)) Decoder.relates_sourceKind) (Decoder.moves_any rfl)
  rintro name _ rfl keyType _ rfl key _ rfl kind _ rfl value _ rfl
  rfl

theorem mimics_write (c : SetTableValue) (scope : Scope) (name : String) (a : Nat) :
    Eval.Mimics ρ (Effect.move ρ) (c.write scope name a)
      ((c.move ρ).write (scope.move ρ) name (ρ.address a)) := by
  refine .bind (mimics_resolveKey scope c.keyType c.keyValue) fun key => ?_
  cases key with
  | error message => exact Eval.mimics_refusal scope _ _ rfl
  | ok key =>
    refine .bind (mimics_resolveValue scope c.valueType c.valueSource) fun v => ?_
    cases v with
    | error message => exact Eval.mimics_refusal scope _ _ rfl
    | ok v =>
      refine .get fun d d' hd => ?_
      rw [hd.heap.get_eq]
      refine .bind (Eval.mimics_lift ((d.heap.get a).put?_move key v)) fun changed? => ?_
      cases changed? with
      | none =>
        have hshown := Eval.mimics_display (ρ := ρ) key.value
        rw [← Value.move_key] at hshown
        refine .bindSame hshown fun shown => ?_
        rw [Table.size_move]
        exact Eval.mimics_refusal scope _ _ rfl
      | some changed =>
        refine .pure ?_
        simp [Effect.move]

theorem mimics_eval (c : SetTableValue) (scope : Scope) :
    Eval.Mimics ρ (Effect.move ρ) (c.eval scope) ((c.move ρ).eval (scope.move ρ)) := by
  have hname : validName? (c.move ρ).tableVariable = validName? c.tableVariable := rfl
  simp only [eval, hname, scope.get_move_nil]
  cases validName? c.tableVariable with
  | none => exact Eval.mimics_refusal scope _ _ rfl
  | some name =>
    dsimp only
    cases scope.get name with
    | table a => exact c.mimics_write scope name a
    | _ => exact Eval.mimics_refusal scope _ _ rfl

end SetTableValue

namespace GetTableValue

def move (ρ : Relocation) (c : GetTableValue) : GetTableValue :=
  { c with keyValue := c.keyValue.move ρ, defaultValue := c.defaultValue.move ρ }

theorem decoder_moves : Decoder.Moves ρ (move ρ) decoder decoder := by
  refine .seq (.seq (.seq (.seq (.map ?_ Decoder.relates_textOrNil) (Decoder.relates_choice _ _))
    (Decoder.moves_any rfl)) Decoder.relates_textOrNil) (Decoder.moves_any rfl)
  rintro name _ rfl keyType _ rfl key _ rfl result _ rfl value _ rfl
  rfl

def Outcome.move (ρ : Relocation) (o : Outcome) : Outcome :=
  { o with key := o.key.move ρ, value := o.value.move ρ }

theorem mimics_lookUp (c : GetTableValue) (scope : Scope) (name : String) (absent : Value) :
    Eval.Mimics ρ (Outcome.move ρ) (c.lookUp scope name absent)
      ((c.move ρ).lookUp (scope.move ρ) name (absent.move ρ)) := by
  simp only [lookUp, scope.get_move_nil]
  refine .bind (Eval.mimics_table? _) fun table? => ?_
  cases table? with
  | none => exact .pure rfl
  | some found =>
    obtain ⟨a, table⟩ := found
    refine .bind (mimics_resolveKey scope c.keyType c.keyValue) fun key => ?_
    cases key with
    | error message => exact .pure rfl
    | ok key =>
      refine .bind (Eval.mimics_lift (table.get?_move key)) fun v? => ?_
      simp only [Value.move_key]
      cases v? with
      | some v => exact .pure rfl
      | none => exact .bindSame (Eval.mimics_plain key.value) fun shown => .pure rfl

theorem mimics_eval (c : GetTableValue) (scope : Scope) :
    Eval.Mimics ρ (Effect.move ρ) (c.eval scope) ((c.move ρ).eval (scope.move ρ)) := by
  have htable : validName? (c.move ρ).tableVariable = validName? c.tableVariable := rfl
  have hresult : validName? (c.move ρ).resultVariable = validName? c.resultVariable := rfl
  simp only [eval, htable, hresult]
  cases validName? c.tableVariable with
  | none => exact Eval.mimics_refusal scope _ _ rfl
  | some name =>
    cases validName? c.resultVariable with
    | none => exact Eval.mimics_refusal scope _ _ rfl
    | some result =>
      refine .bind (Eval.mimics_literal c.defaultValue) fun absent => ?_
      exact .bind (c.mimics_lookUp scope name absent) fun found => .pure rfl

end GetTableValue

namespace InsertIntoTable

def move (ρ : Relocation) (c : InsertIntoTable) : InsertIntoTable :=
  { c with valueSource := c.valueSource.move ρ }

theorem decoder_moves : Decoder.Moves ρ (move ρ) decoder decoder := by
  refine .seq (.seq (.map ?_ Decoder.relates_textOrNil) Decoder.relates_sourceKind)
    (Decoder.moves_any rfl)
  rintro name _ rfl kind _ rfl value _ rfl
  rfl

theorem mimics_eval (c : InsertIntoTable) (scope : Scope) :
    Eval.Mimics ρ (Effect.move ρ) (c.eval scope) ((c.move ρ).eval (scope.move ρ)) := by
  simp only [eval, move, scope.get_move_nil]
  cases validName? c.tableVariable with
  | none => exact Eval.mimics_refusal scope _ _ rfl
  | some name =>
    refine .bind (Eval.mimics_table? (scope.get name)) fun table? => ?_
    cases table? with
    | none => exact Eval.mimics_refusal scope _ _ rfl
    | some found =>
      obtain ⟨a, table⟩ := found
      cases table with
      | map entries => exact Eval.mimics_refusal scope _ _ rfl
      | array items =>
        refine .bind (mimics_resolveValue scope c.valueType c.valueSource) fun v => ?_
        cases v with
        | error message => exact Eval.mimics_refusal scope _ _ rfl
        | ok v => exact .pure (by simp [Effect.move, Table.move])

end InsertIntoTable

theorem GetTableLength.decoder_moves :
    Decoder.Moves ρ id GetTableLength.decoder GetTableLength.decoder := by
  refine .seq (.map ?_ Decoder.relates_textOrNil) Decoder.relates_textOrNil
  rintro name _ rfl result _ rfl
  rfl

theorem GetTableLength.measure_move (name : String) (table? : Option Table) :
    measure name (table?.map (Table.move ρ)) = measure name table? := by
  cases table? with
  | none => rfl
  | some table => cases table <;> simp [measure, Table.move]

theorem GetTableLength.mimics_eval (c : GetTableLength) (scope : Scope) :
    Eval.Mimics ρ (Effect.move ρ) (c.eval scope) (c.eval (scope.move ρ)) := by
  simp only [eval, scope.get_move_nil]
  cases validName? c.tableVariable with
  | none => exact Eval.mimics_refusal scope _ _ rfl
  | some name =>
    cases validName? c.resultVariable with
    | none => exact Eval.mimics_refusal scope _ _ rfl
    | some result =>
      refine .bind (Eval.mimics_table? (scope.get name)) fun table? => ?_
      have htable : (table?.map (Prod.map ρ.address (Table.move ρ))).map Prod.snd =
          (table?.map Prod.snd).map (Table.move ρ) := by
        cases table? <;> rfl
      rw [htable, measure_move]
      exact .pure rfl

/-! ### All leaves -/

namespace Leaf

def move (ρ : Relocation) : Leaf → Leaf
  | .setVariable c => .setVariable (c.move ρ)
  | .readVariable c => .readVariable (c.move ρ)
  | .print c => .print (c.move ρ)
  | .arithmetic c => .arithmetic (c.move ρ)
  | .wait c => .wait (c.move ρ)
  | .typeCheck c => .typeCheck (c.move ρ)
  | .toText c => .toText (c.move ρ)
  | .toNumber c => .toNumber (c.move ρ)
  | .makeVector c => .makeVector (c.move ρ)
  | .concatenate c => .concatenate (c.move ρ)
  | .formatText c => .formatText (c.move ρ)
  | .textLength c => .textLength c
  | .createTable c => .createTable (c.move ρ)
  | .setTableValue c => .setTableValue (c.move ρ)
  | .getTableValue c => .getTableValue (c.move ρ)
  | .insertIntoTable c => .insertIntoTable (c.move ρ)
  | .getTableLength c => .getTableLength c
  | .serverEvent c => .serverEvent (c.move ρ)
  | .clientEvent c => .clientEvent (c.move ρ)

theorem decoder_moves (hm : h.Moved ρ h') (kind : LeafKind) :
    Decoder.Moves ρ (move ρ) (decoder h kind) (decoder h' kind) := by
  cases kind with
  | setVariable => exact SetVariable.decoder_moves.map fun _ _ h => congrArg _ h
  | readVariable => exact ReadVariable.decoder_moves.map fun _ _ h => congrArg _ h
  | print => exact Print.decoder_moves.map fun _ _ h => congrArg _ h
  | arithmetic => exact Arithmetic.decoder_moves.map fun _ _ h => congrArg _ h
  | wait => exact Wait.decoder_moves.map fun _ _ h => congrArg _ h
  | typeCheck => exact Conversion.decoder_moves.map fun _ _ h => congrArg _ h
  | toText => exact Conversion.decoder_moves.map fun _ _ h => congrArg _ h
  | toNumber => exact Conversion.decoder_moves.map fun _ _ h => congrArg _ h
  | makeVector => exact MakeVector.decoder_moves.map fun _ _ h => congrArg _ h
  | concatenate => exact Concatenate.decoder_moves.map fun _ _ h => congrArg _ h
  | formatText => exact (FormatText.decoder_moves hm).map fun _ _ h => congrArg _ h
  | textLength => exact TextLength.decoder_moves.map fun _ _ h => congrArg _ h
  | createTable => exact CreateTable.decoder_moves.map fun _ _ h => congrArg _ h
  | setTableValue => exact SetTableValue.decoder_moves.map fun _ _ h => congrArg _ h
  | getTableValue => exact GetTableValue.decoder_moves.map fun _ _ h => congrArg _ h
  | insertIntoTable => exact InsertIntoTable.decoder_moves.map fun _ _ h => congrArg _ h
  | getTableLength => exact GetTableLength.decoder_moves.map fun _ _ h => congrArg _ h
  | serverEvent => exact (ServerEvent.decoder_moves hm).map fun _ _ h => congrArg _ h
  | clientEvent => exact (ClientEvent.decoder_moves hm).map fun _ _ h => congrArg _ h

theorem mimics_eval (l : Leaf) (scope : Scope) :
    Eval.Mimics ρ (Effect.move ρ) (l.eval scope) ((l.move ρ).eval (scope.move ρ)) := by
  cases l with
  | setVariable c => exact c.mimics_eval scope
  | readVariable c => exact c.mimics_eval scope
  | print c => exact c.mimics_eval scope
  | arithmetic c => exact c.mimics_eval scope
  | wait c => exact c.mimics_eval scope
  | typeCheck c => exact c.mimics_typeCheck scope
  | toText c => exact c.mimics_toText scope
  | toNumber c => exact c.mimics_toNumber scope
  | makeVector c => exact c.mimics_eval scope
  | concatenate c => exact c.mimics_eval scope
  | formatText c => exact c.mimics_eval scope
  | textLength c => exact c.mimics_eval scope
  | createTable c => exact c.mimics_eval scope
  | setTableValue c => exact c.mimics_eval scope
  | getTableValue c => exact c.mimics_eval scope
  | insertIntoTable c => exact c.mimics_eval scope
  | getTableLength c => exact c.mimics_eval scope
  | serverEvent c => exact c.mimics_eval scope
  | clientEvent c => exact c.mimics_eval scope

end Leaf

end NodeScript
