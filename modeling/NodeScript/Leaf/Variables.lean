import NodeScript.Leaf.Basic

/-! Setting, reading and printing variables. -/

namespace NodeScript

/-- How the value of a `setVariable` instruction is understood. -/
inductive DataType where
  | string
  | number
  | boolean
  | nil
  | variable
  | literal
deriving DecidableEq, Repr

namespace DataType

def options : List (String × DataType) :=
  [("string", .string), ("number", .number), ("boolean", .boolean), ("nil", .nil),
   ("variable", .variable), ("literal", .literal)]

def name : DataType → String
  | .string => "string"
  | .number => "number"
  | .boolean => "boolean"
  | .nil => "nil"
  | .variable => "variable"
  | .literal => "literal"

end DataType

structure SetVariable where
  name : Option String
  value : Value
  dataType : DataType

namespace SetVariable

def decoder : Decoder SetVariable :=
  SetVariable.mk
    <$> .textOrNil ⟨"name", "name"⟩
    <*> .any ⟨"value", "value"⟩
    <*> .optional ⟨"dataType", "data_type"⟩ .string (Check.choice DataType.options)

def isTrueWord (s : String) : Bool :=
  Text.lowerChars (Text.trimChars s.toList) == ['t', 'r', 'u', 'e']

/-- The value to be set. What is no number counts as zero. -/
def newValue (c : SetVariable) (name : String) (scope : Scope) : Eval Value :=
  match c.dataType with
  | .number => do
    match ← Eval.toNumber? c.value with
    | some n => return .number n
    | none =>
      let shown ← Eval.plain c.value
      Eval.warn s!"Invalid number value \"{shown}\" for \"{name}\". Setting to 0."
      return .int 0
  | .boolean =>
    match c.value with
    | .bool b => return .bool b
    | v => return .bool (isTrueWord (← Eval.plain v))
  | .nil => return .nil
  | .variable => return scope.get (← Eval.plain c.value)
  | .literal => Eval.literal c.value
  | .string =>
    match c.value with
    | .nil => return .text ""
    | v => return .text (← Eval.plain v)

def eval (c : SetVariable) (scope : Scope) : Eval Effect :=
  match validName? c.name with
  | none => return .refusal scope "setVariable" s!"Invalid variable name: {nameText c.name}"
  | some name => do
    let v ← c.newValue name scope
    return {
      binding := some (name, v)
      output := some
        [("action", .text "setVariable"), ("variable_name", .text name), ("value", .value v),
         ("data_type", .text c.dataType.name)] }

end SetVariable

structure ReadVariable where
  variableName : String
  defaultValue : Value
  resultVariable : Option String

namespace ReadVariable

def decoder : Decoder ReadVariable :=
  ReadVariable.mk
    <$> .text ⟨"variableName", "variable_name"⟩ ""
    <*> .any ⟨"defaultValue", "default_value"⟩
    <*> .textOrNil ⟨"resultVariable", "result_variable"⟩

def eval (c : ReadVariable) (scope : Scope) : Eval Effect := do
  let absent ← Eval.literal c.defaultValue
  let v := scope.get c.variableName absent
  return {
    binding := (givenName? c.resultVariable).map fun name => (name, v)
    output := some
      [("action", .text "readVariable"), ("variable_name", .text c.variableName),
       ("value_read", .value v), ("was_found", .bool (scope.has c.variableName))] }

end ReadVariable

structure Print where
  message : Value
  useVariable : Bool
  messageVariable : Option String
  toConsole : Bool
  color : String

namespace Print

def decoder : Decoder Print :=
  Print.mk
    <$> .any ⟨"message", "message"⟩ (.text "")
    <*> .flag ⟨"useVariableForMessage", "use_variable_for_message"⟩
    <*> .textOrNil ⟨"messageVariable", "message_variable"⟩
    <*> .flag ⟨"printToConsole", "print_to_console"⟩ true
    <*> .text ⟨"color", "color"⟩ "#ffffff"

/-- The text to be printed and where it comes from. -/
def message? (c : Print) (scope : Scope) : Eval (String × String) :=
  match c.useVariable, givenName? c.messageVariable with
  | true, some name => do
    let source := s!"variable({name})"
    if scope.has name then return (← Eval.scriptText (scope.get name), source)
    else return (s!"[Variable '{name}' not found]", source)
  | _, _ =>
    match c.message with
    | .nil => return ("", "literal")
    | v => return (← Eval.scriptText v, "literal")

def eval (c : Print) (scope : Scope) : Eval Effect := do
  let (message, source) ← c.message? scope
  return {
    output := some
      [("action", .text "print"), ("message_printed", .text message), ("source", .text source)] }

end Print

end NodeScript
