import NodeScript.Leaf.Basic

/-! Arithmetic and waiting. -/

namespace NodeScript

structure Arithmetic where
  operation : String
  value1 : Value
  value2 : Value
  useVariable1 : Bool
  variable1 : Option String
  useVariable2 : Bool
  variable2 : Option String
  resultVariable : String

/-- The operations; any other name gives zero. -/
inductive Operation where
  | add
  | subtract
  | multiply
  | divide
  | modulo
  | power
  | unknown (name : String)
deriving DecidableEq, Repr

def Operation.ofName : String → Operation
  | "add" => .add
  | "subtract" => .subtract
  | "multiply" => .multiply
  | "divide" => .divide
  | "modulo" => .modulo
  | "power" => .power
  | name => .unknown name

def PowerError.message : PowerError → String
  | .zeroToNegative => "Zero raised to a negative power. Result set to 0."
  | .tooLarge => "Power result is too large. Result set to 0."
  | .negativeBase => "Negative base with a fractional exponent. Result set to 0."

/-- A number, or why there is none. -/
inductive Operation.Result where
  | number (n : Number)
  | undefined (reason : String)

/-- Where an operation has no value it gives a reason; integers too large for it are a fault. -/
def Operation.apply (op : Operation) (a b : Number) : Except Fault Operation.Result :=
  match op with
  | .add => return .number (← a.add b)
  | .subtract => return .number (← a.sub b)
  | .multiply => return .number (← a.mul b)
  | .divide =>
    if b.isZero then .ok (.undefined "Division by zero detected. Result set to 0.")
    else return .number (← a.div b)
  | .modulo =>
    if b.isZero then .ok (.undefined "Modulo by zero detected. Result set to 0.")
    else return .number (← a.mod b)
  | .power =>
    match a.pow b with
    | .ok n => .ok (.number n)
    | .error e => .ok (.undefined e.message)
  | .unknown name => .ok (.undefined s!"Unknown math operation \"{name}\". Defaulting to 0.")

namespace Arithmetic

def decoder : Decoder Arithmetic :=
  Arithmetic.mk
    <$> .text ⟨"operation", "operation"⟩ "add"
    <*> .any ⟨"value1", "value1"⟩ (.int 0)
    <*> .any ⟨"value2", "value2"⟩ (.int 0)
    <*> .flag ⟨"useVariableForValue1", "use_variable_for_value1"⟩
    <*> .textOrNil ⟨"value1Variable", "value1_variable"⟩
    <*> .flag ⟨"useVariableForValue2", "use_variable_for_value2"⟩
    <*> .textOrNil ⟨"value2Variable", "value2_variable"⟩
    <*> .text ⟨"resultVariable", "result_variable"⟩ "mathResult"

/-- What is no number counts as zero. -/
def operand (scope : Scope) (useVariable : Bool) (name : Option String) (given : Value) :
    Eval Number := do
  let v ← readOperand scope useVariable name given (.int 0)
  match v.toNumber? with
  | some n => return n
  | none =>
    let shown ← Eval.display given
    Eval.warn s!"Math operand {shown} is not a number. Using 0."
    return .int 0

def eval (c : Arithmetic) (scope : Scope) : Eval Effect := do
  let a ← operand scope c.useVariable1 c.variable1 c.value1
  let b ← operand scope c.useVariable2 c.variable2 c.value2
  let (result, status) ←
    match ← Eval.lift ((Operation.ofName c.operation).apply a b) with
    | .number n => do pure (← Eval.newNumber n, "success")
    | .undefined reason => do
      Eval.warn reason
      pure (.int 0, "warning")
  return {
    binding := some (nameOr c.resultVariable "mathResult", .number result)
    output := some
      [("action", .text "math"), ("status", .text status), ("operation", .text c.operation),
       ("operands", .list [.number a, .number b]), ("result", .number result),
       ("result_variable", .text c.resultVariable)] }

end Arithmetic

structure Wait where
  duration : Value
  useVariable : Bool
  durationVariable : Option String

namespace Wait

def decoder : Decoder Wait :=
  Wait.mk
    <$> .any ⟨"duration", "duration"⟩ (.int 0)
    <*> .flag ⟨"useVariableForDuration", "use_variable_for_duration"⟩
    <*> .textOrNil ⟨"durationVariable", "duration_variable"⟩

/-- Only records how long the script would wait. -/
def eval (c : Wait) (scope : Scope) : Eval Effect := do
  let v ← readOperand scope c.useVariable c.durationVariable c.duration (.int 0)
  let duration ←
    match v.toNumber?.filter fun n => !n.lt (.int 0) with
    | some n => pure n
    | none => do
      let shown ← Eval.display c.duration
      Eval.warn s!"Invalid wait duration {shown}. Using 0ms."
      pure (.int 0)
  let source := if c.useVariable then s!"variable({nameText c.durationVariable})" else "literal"
  return {
    output := some
      [("action", .text "wait"), ("duration", .number duration), ("source", .text source)] }

end Wait

end NodeScript
