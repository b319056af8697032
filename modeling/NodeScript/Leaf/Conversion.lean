import NodeScript.Leaf.Basic

/-! Type names, conversions between texts and numbers, and vectors. -/

namespace NodeScript

/-- A base as it is configured. -/
inductive Base where
  | text (s : String)
  | int (n : Int)
deriving DecidableEq, Repr

namespace Base

/-- A text, or an integer in any of its guises. -/
def check : Value → Checked Base
  | .text s => .valid (.text s)
  | .number (.int n) => .valid (.int n)
  | .bool b => .valid (.int (if b then 1 else 0))
  | .number (.float x) =>
    match (Number.float x).whole? with
    | some n =>
      if Check.isInnerWord n then .valid (.int n) else neither .integerTooLarge
    | none => neither (if x.isFinite then .fractionalInteger else .notFinite)
  | .number (.nan _) => neither .notFinite
  | _ => neither .notInteger
where
  /-- The problems of reading a text and of reading an integer. -/
  neither (kind : ProblemKind) : Checked Base :=
    .invalid [⟨["str"], .notText⟩, ⟨["int"], kind⟩]

def isGiven : Base → Bool
  | .text s => s != ""
  | .int _ => true

def text? : Base → Except Fault String
  | .text s => .ok s
  | .int n => Number.integerText n

def display : Base → Except Fault String
  | .text s => .ok (Text.quoted s)
  | .int n => Number.integerText n

end Base

/-- The input and the result variable that all conversions have. -/
structure Conversion where
  useVariable : Bool
  inputVariable : Option String
  inputValue : Value
  resultVariable : Option String
  base : Option Base

namespace Conversion

def decoder : Decoder Conversion :=
  Conversion.mk
    <$> .flag ⟨"useVariableForInput", "use_variable_for_input"⟩
    <*> .textOrNil ⟨"inputVariable", "input_variable"⟩
    <*> .any ⟨"inputValue", "input_value"⟩
    <*> .textOrNil ⟨"resultVariable", "result_variable"⟩
    <*> .optional ⟨"base", "base"⟩ none (Check.orNil Base.check)

/-- The result variable and the input, or why one of them is refused. -/
def input (c : Conversion) (scope : Scope) : Eval (Except String (String × Value)) :=
  match validName? c.resultVariable with
  | none => return .error s!"Invalid result variable name: {nameText c.resultVariable}"
  | some result =>
    if c.useVariable then
      match validName? c.inputVariable with
      | none => return .error s!"Invalid input variable name: {nameText c.inputVariable}"
      | some name => return .ok (result, scope.get name)
    else return .ok (result, ← Eval.literal c.inputValue)

/-- Refuses bad input in the name of an action, or goes on with good input. -/
def withInput (c : Conversion) (action : String) (scope : Scope)
    (go : String → Value → Eval Effect) : Eval Effect := do
  match ← c.input scope with
  | .error message => return .refusal scope action message
  | .ok (result, v) => go result v

def typeCheck (c : Conversion) (scope : Scope) : Eval Effect :=
  c.withInput "typeCheck" scope fun result v =>
    let name := v.type.name
    return {
      binding := some (result, .text name)
      output := some
        [("action", .text "typeCheck"), ("status", .text "simulated"), ("value_checked", .value v),
         ("simulated_type", .text name), ("result_variable", .text result)] }

def toText (c : Conversion) (scope : Scope) : Eval Effect :=
  c.withInput "toString" scope fun result v => do
    let s ← Eval.scriptText v
    return {
      binding := some (result, .text s)
      output := some
        [("action", .text "toString"), ("status", .text "simulated"), ("original_value", .value v),
         ("string_value", .text s), ("result_variable", .text result)] }

/-- The base from two to thirty-six that is configured; any other is ignored with a warning. -/
def usedBase (c : Conversion) : Eval (Option Int) :=
  match c.base.filter Base.isGiven with
  | none => return none
  | some base => do
    match Number.ofText? (← Eval.lift base.text?) with
    | some (.int n) => if 2 ≤ n && n ≤ 36 then return some n else ignore base
    | _ => ignore base
where
  ignore (base : Base) : Eval (Option Int) := do
    let shown ← Eval.lift base.display
    Eval.warn s!"Invalid base {shown}. Ignoring."
    return none

/-- In a base, a value that is no text is written as one first. -/
def toNumber (c : Conversion) (scope : Scope) : Eval Effect :=
  c.withInput "toNumber" scope fun result v => do
    let base ← c.usedBase
    let v ←
      match base, v with
      | some _, .text s => pure (.text s)
      | some _, v => do pure (.text (← Eval.scriptText v))
      | none, v => pure v
    let number? ←
      match base with
      | some base => pure (v.toNumberIn? base)
      | none => Eval.toNumber? v
    let number := .ofOption (number?.map .number)
    return {
      binding := some (result, number)
      output := some
        [("action", .text "toNumber"), ("status", .text "simulated"), ("original_value", .value v),
         ("number_value", .value number), ("base", .value (.ofOption (base.map .int))),
         ("result_variable", .text result)] }

end Conversion

structure MakeVector where
  resultVariable : Option String
  x : Value
  y : Value
  z : Value
  useVariableX : Bool
  useVariableY : Bool
  useVariableZ : Bool

namespace MakeVector

def decoder : Decoder MakeVector :=
  MakeVector.mk
    <$> .textOrNil ⟨"resultVariable", "result_variable"⟩
    <*> .any ⟨"xSource", "x_source"⟩ (.int 0)
    <*> .any ⟨"ySource", "y_source"⟩ (.int 0)
    <*> .any ⟨"zSource", "z_source"⟩ (.int 0)
    <*> .flag ⟨"useVariableForX", "use_variable_for_x"⟩
    <*> .flag ⟨"useVariableForY", "use_variable_for_y"⟩
    <*> .flag ⟨"useVariableForZ", "use_variable_for_z"⟩

/-- The coordinate, or why the name of its variable is refused. What is no number counts as zero. -/
def coordinate (scope : Scope) (axis : String) (useVariable : Bool) (source : Value) :
    Eval (Except String Number) := do
  let v? ←
    match useVariable, validNameOf? source with
    | true, none => pure none
    | true, some name => pure (some (scope.get name))
    | false, _ => do pure (some (← Eval.literal source))
  match v? with
  | none =>
    let shown ← Eval.plain source
    return .error s!"Invalid variable name for {axis}: {shown}"
  | some v =>
    match ← Eval.toNumber? v with
    | some n => return .ok n
    | none =>
      let shown ← Eval.display source
      Eval.warn s!"Vector3 {axis} coordinate {shown} is not a number. Using 0."
      return .ok (.int 0)

def vector (c : MakeVector) (scope : Scope) : Eval (Except String Vector3) := do
  match ← coordinate scope "X" c.useVariableX c.x with
  | .error message => return .error message
  | .ok x =>
    match ← coordinate scope "Y" c.useVariableY c.y with
    | .error message => return .error message
    | .ok y =>
      match ← coordinate scope "Z" c.useVariableZ c.z with
      | .error message => return .error message
      | .ok z => return .ok ⟨x, y, z⟩

def eval (c : MakeVector) (scope : Scope) : Eval Effect :=
  match validName? c.resultVariable with
  | none =>
    return .refusal scope "vector3" s!"Invalid result variable name: {nameText c.resultVariable}"
  | some result => do
    match ← c.vector scope with
    | .error message => return .refusal scope "vector3" message
    | .ok v =>
      return {
        binding := some (result, .vector v)
        output := some
          [("action", .text "vector3"), ("status", .text "success"),
           ("vector", .map [("x", .number v.x), ("y", .number v.y), ("z", .number v.z)]),
           ("result_variable", .text result)] }

end MakeVector

end NodeScript
