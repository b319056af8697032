import NodeScript.Graph
import NodeScript.Leaf.Basic

/-! Returning from a graph and calling another one. -/

namespace NodeScript

structure GiveBack where
  useVariable : Bool
  returnVariable : Option String
  returnValue : Value

namespace GiveBack

def decoder : Decoder GiveBack :=
  GiveBack.mk
    <$> .flag ⟨"useVariableForResult", "use_variable_for_result"⟩
    <*> .textOrNil ⟨"returnVariable", "return_variable"⟩
    <*> .any ⟨"returnValue", "return_value"⟩

/-- The value to be returned and where it comes from. -/
def value (c : GiveBack) (scope : Scope) : Eval (Value × String) :=
  match c.useVariable, givenName? c.returnVariable with
  | true, some name => do
    if !scope.has name then
      Eval.warn s!"Return variable \"{name}\" not found. Returning nil."
    return (scope.get name, s!"variable({name})")
  | _, _ => return (← Eval.literal c.returnValue, "literal")

def run (c : GiveBack) : Exec Record := do
  let (v, source) ← Exec.evaluate c.value
  let accepted ← modifyGet fun context => context.setReturn v
  return [("action", .text "return"), ("source", .text source), ("value_returned", .value v)] ++
    if accepted then [] else [("ignored", .bool true)]

end GiveBack

structure Call where
  functionName : Option String
  arguments : List Source
  resultVariable : String

namespace Call

def decoder (h : Heap) : Decoder Call :=
  Call.mk
    <$> .textOrNil ⟨"functionName", "function_name"⟩
    <*> .sources h ⟨"argumentSources", "argument_sources"⟩
    <*> .text ⟨"resultVariable", "result_variable"⟩ "functionResult"

/-- Faults of the called graph that the caller survives. -/
def isContained : Fault → Bool
  | .call _ | .structural _ => true
  | _ => false

/-- Runs the called graph. A contained fault is logged and gives nil. -/
def invoke (caller : Caller) (name key : String) (args : List Value) : Exec (Value × String) :=
  fun context =>
    match caller key args context with
    | .ok v context => .ok (v, "success") context
    | .error fault context =>
      if isContained fault then
        .ok (.nil, "error") <| context.addRecord
          [("node", .textOrNil context.label), ("status", .text "error"),
           ("message", .text s!"Error in called function '{name}': {fault.message}")]
      else .error fault context

/-- Sets the result variable, whose name must be one that scripts may use. -/
def setResult (name : String) (v : Value) (context : Context) : Context :=
  if Text.isScriptName name then context.setVariable name v
  else context.warn s!"Invalid result variable name: {Text.quoted name}"

def run (c : Call) (start : String) (caller : Caller) : Exec Record := do
  let result := nameOr c.resultVariable "functionResult"
  match givenName? c.functionName with
  | none =>
    modify fun context =>
      (context.setVariable result .nil).warn "Call Function: no valid function name selected."
    return [("action", .text "callFunction"), ("status", .text "error"),
      ("message", .text "No valid function name specified")]
  | some name =>
    let key := functionKey start name
    let args ← Exec.evaluate fun scope => Source.resolveAll scope c.arguments
    let (v, status) ← invoke caller name key args
    modify (setResult result v)
    return [("action", .text "callFunction"), ("status", .text status),
      ("function_called", .text name), ("graph_key", .text key), ("arguments_sent", .list args),
      ("result_variable", .text result), ("result", .value v)]

end Call

end NodeScript
