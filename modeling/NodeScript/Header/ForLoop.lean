import NodeScript.Header.Condition

/-! Headers of `for` loops. -/

namespace NodeScript

/-- What a loop header decides. -/
inductive LoopEntry where
  | skip
  | numeric (loop : NumericLoop)
  | generic (loop : GenericLoop)
deriving DecidableEq, Repr

/-- What a header sets, if the loop is entered, or why it cannot be. -/
inductive HeaderOutcome where
  | skip
  | enter (bindings : List (String × Value)) (entry : LoopEntry)
  | refused (message : String)

structure NumericFor where
  controlVariable : String
  start : Value
  startKind : SourceKind
  finish : Value
  finishKind : SourceKind
  step : Value
  stepKind : SourceKind

namespace NumericFor

def decoder : Decoder NumericFor :=
  NumericFor.mk
    <$> .text ⟨"controlVariable", "control_variable"⟩ "i"
    <*> .any ⟨"startValue", "start_value"⟩ (.text "0")
    <*> .sourceKind ⟨"startValueType", "start_value_type"⟩
    <*> .any ⟨"endValue", "end_value"⟩ (.text "0")
    <*> .sourceKind ⟨"endValueType", "end_value_type"⟩
    <*> .any ⟨"stepValue", "step_value"⟩ (.text "1")
    <*> .sourceKind ⟨"stepValueType", "step_value_type"⟩

def invalid (what : String) : HeaderOutcome :=
  .refused s!"Failed to evaluate loop parameters: {what}"

/-- The control variable starts at the first value if that is in range. -/
def eval (c : NumericFor) (scope : Scope) : Eval HeaderOutcome := do
  let start ← headerOperand scope c.startKind c.start (.int 0)
  let finish ← headerOperand scope c.finishKind c.finish (.int 0)
  let step ← headerOperand scope c.stepKind c.step (.int 1)
  match start.toNumber?, finish.toNumber?, step.toNumber? with
  | none, _, _ => return invalid "Invalid start value"
  | _, none, _ => return invalid "Invalid end value"
  | _, _, none => return invalid "Invalid step value"
  | some current, some limit, some step =>
    if step.isZero then return invalid "Step value cannot be zero"
    else
      let loop : NumericLoop := ⟨nameOr c.controlVariable "i", current, limit, step⟩
      if loop.inRange then
        return .enter [(loop.controlVariable, .number current)] (.numeric loop)
      else return .skip

end NumericFor

structure GenericFor where
  tableVariable : Option String
  iteration : Iteration
  keyVariable : Option String
  valueVariable : String

namespace GenericFor

def decoder : Decoder GenericFor :=
  GenericFor.mk
    <$> .textOrNil ⟨"tableVariable", "table_variable"⟩
    <*> .optional ⟨"iterationType", "iteration_type"⟩ .pairs (Check.choice Iteration.options)
    <*> .textOrNil ⟨"keyVariable", "key_variable"⟩
    <*> .text ⟨"valueVariable", "value_variable"⟩ "value"

/-- The value under a number, which may also be written as a text. -/
def itemAt? (entries : Dict Key Value) (index : Nat) : Option Value :=
  match entries.get? (.number (.int index)) with
  | some v => some v
  | none => entries.get? (.text (toString index))

/-- The values under consecutive numbers from `index` on, up to the first gap. -/
def consecutiveFrom (entries : Dict Key Value) : (count : Nat) → (index : Nat) → List Value
  | 0, _ => []
  | count + 1, index =>
    match itemAt? entries index with
    | some v => v :: consecutiveFrom entries count (index + 1)
    | none => []

/-- The items of a map that is visited in order. There are no more of them than entries. -/
def consecutive (entries : Dict Key Value) : List Value :=
  consecutiveFrom entries entries.size 1

/-- All entries of a table with their keys. -/
def entries : Table → List (Value × Value)
  | .array items => items.zipIdx.map fun (v, i) => (.int (i + 1), v)
  | .map d => d.entries.map fun (k, v) => (k.value, v)

/-- The two loop variables hold the first key and value if there is one. -/
def enter (c : GenericFor) (a : Address) (table : Table) : HeaderOutcome :=
  let keyVariable :=
    (givenName? c.keyVariable).getD (if c.iteration = .ipairs then "index" else "key")
  let valueVariable := nameOr c.valueVariable "value"
  let loop : GenericLoop := { iteration := c.iteration, keyVariable, valueVariable }
  match c.iteration with
  | .ipairs =>
    let source : ItemSource :=
      match table with
      | .array _ => .table a
      | .map d => .fixed (consecutive d)
    let first? :=
      match table with
      | .array items => items.head?
      | .map d => (consecutive d).head?
    match first? with
    | none => .skip
    | some v =>
      .enter [(keyVariable, .int 1), (valueVariable, v)] (.generic { loop with source := some source })
  | .pairs =>
    match entries table with
    | [] => .skip
    | (k, v) :: rest =>
      .enter [(keyVariable, k), (valueVariable, v)] (.generic { loop with pending := some rest })

def eval (c : GenericFor) (scope : Scope) : Eval HeaderOutcome :=
  match givenName? c.tableVariable with
  | none => return .refused "Table variable name is missing."
  | some name => do
    let v := scope.get name
    match ← Eval.table? v with
    | some (a, table) => return c.enter a table
    | none =>
      let kind ← Eval.kindName v
      return .refused
        s!"Variable \"{name}\" does not contain a valid table. Found: {kind}"

end GenericFor

/-- Carries out what a header decided. A refusal goes to the log. -/
def HeaderOutcome.apply (o : HeaderOutcome) : Exec LoopEntry :=
  match o with
  | .skip => return .skip
  | .enter bindings entry => do
    modify fun c => bindings.foldl (fun c (name, v) => c.setVariable name v) c
    return entry
  | .refused message => do
    modify fun c => c.addRecord
      [("node", .textOrNil c.label), ("status", .text "error"), ("message", .text message)]
    return .skip

end NodeScript
