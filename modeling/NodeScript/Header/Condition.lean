import NodeScript.Leaf.Basic

/-! Conditions of `if` and `while`. -/

namespace NodeScript

structure Condition where
  lhsKind : SourceKind
  lhs : Value
  operator : String
  rhsKind : SourceKind
  rhs : Value

/-- A literal, or the content of the variable that a text names. -/
def headerOperand (scope : Scope) (kind : SourceKind) (given : Value) (absent : Value := .nil) :
    Eval Value :=
  match kind, given with
  | .variable, .text name => return scope.get name absent
  | .variable, _ => return scope.get "" absent
  | .literal, v => Eval.literal v

namespace Condition

def decoder : Decoder Condition :=
  Condition.mk
    <$> .sourceKind ⟨"conditionLhsType", "condition_lhs_type"⟩
    <*> .any ⟨"conditionLhsValue", "condition_lhs_value"⟩ (.text "")
    <*> .text ⟨"conditionOperator", "condition_operator"⟩ "=="
    <*> .sourceKind ⟨"conditionRhsType", "condition_rhs_type"⟩
    <*> .any ⟨"conditionRhsValue", "condition_rhs_value"⟩ (.text "")

/-- Whether the condition is met. Both operands are also traced, so that an operand which cannot be
displayed is a fault. -/
def eval (c : Condition) (scope : Scope) : Eval Bool := do
  let lhs ← headerOperand scope c.lhsKind c.lhs
  let rhs ← headerOperand scope c.rhsKind c.rhs
  let met ← Eval.ask fun h room => Comparison.holds h room lhs (.ofName c.operator) rhs
  let _ ← Eval.display lhs
  let _ ← Eval.display rhs
  return met

end Condition

end NodeScript
