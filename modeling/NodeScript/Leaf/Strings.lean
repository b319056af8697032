import NodeScript.Leaf.Basic

/-! Joining, filling in and measuring texts. -/

namespace NodeScript

structure Concatenate where
  string1 : Value
  string2 : Value
  useVariable1 : Bool
  variable1 : Option String
  useVariable2 : Bool
  variable2 : Option String
  resultVariable : String

namespace Concatenate

/-- Nil, a truth value, a number or a text. -/
def checkScalar : Value → Checked Value
  | .vector _ | .moment _ | .table _ =>
    .invalid [⟨["str"], .notText⟩, ⟨["int"], .notInteger⟩, ⟨["float"], .notNumber⟩,
      ⟨["bool"], .notFlag⟩]
  | v => .valid v

def decoder : Decoder Concatenate :=
  Concatenate.mk
    <$> .optional ⟨"string1", "string1"⟩ (.text "") checkScalar
    <*> .optional ⟨"string2", "string2"⟩ (.text "") checkScalar
    <*> .flag ⟨"useVariableForString1", "use_variable_for_string1"⟩
    <*> .textOrNil ⟨"string1Variable", "string1_variable"⟩
    <*> .flag ⟨"useVariableForString2", "use_variable_for_string2"⟩
    <*> .textOrNil ⟨"string2Variable", "string2_variable"⟩
    <*> .text ⟨"resultVariable", "result_variable"⟩ "concatResult"

/-- A missing variable and a nil literal are empty texts. -/
def part (scope : Scope) (useVariable : Bool) (name : Option String) (given : Value) :
    Eval String :=
  match useVariable, givenName? name with
  | true, some name => Eval.scriptText (scope.get name (.text ""))
  | _, _ => Eval.scriptText (if given = .nil then .text "" else given)

def eval (c : Concatenate) (scope : Scope) : Eval Effect := do
  let first ← part scope c.useVariable1 c.variable1 c.string1
  let second ← part scope c.useVariable2 c.variable2 c.string2
  let result := first ++ second
  let name := nameOr c.resultVariable "concatResult"
  return {
    binding := some (name, .text result)
    output := some
      [("action", .text "concatenate"), ("string1", .text first), ("string2", .text second),
       ("result", .text result), ("result_variable", .text name)] }

end Concatenate

structure FormatText where
  format : String
  arguments : List Source
  resultVariable : Option String

namespace FormatText

def decoder (h : Heap) : Decoder FormatText :=
  FormatText.mk
    <$> .text ⟨"formatString", "format_string"⟩ ""
    <*> .sources h ⟨"argumentSources", "argument_sources"⟩
    <*> .textOrNil ⟨"resultVariable", "result_variable"⟩

/-- Letters that make a placeholder after a percent sign. -/
def isSpecifier (c : Char) : Bool :=
  c == 's' || c == 'd' || c == 'i' || c == 'f'

inductive Piece where
  | char (c : Char)
  | placeholder
deriving DecidableEq, Repr

def pieces : List Char → List Piece
  | [] => []
  | [c] => [.char c]
  | c :: d :: rest =>
    if c == '%' && isSpecifier d then .placeholder :: pieces rest
    else .char c :: pieces (d :: rest)
termination_by structural cs => cs

def placeholders (ps : List Piece) : Nat :=
  ps.count .placeholder

/-- Replaces the placeholders from left to right; nil stands in for missing arguments. -/
def fill (h : Heap) (room : Nat) : List Piece → List Value → Except Fault (List Char)
  | [], _ => .ok []
  | .char c :: ps, args => return c :: (← fill h room ps args)
  | .placeholder :: ps, args => do
    let shown ← h.scriptText room (args.head?.getD .nil)
    return shown.toList ++ (← fill h room ps args.tail)

def eval (c : FormatText) (scope : Scope) : Eval Effect :=
  match validName? c.resultVariable with
  | none =>
    return .refusal scope "stringFormat"
      s!"Invalid result variable name: {nameText c.resultVariable}"
  | some name => do
    let args ← Source.resolveAll scope c.arguments
    let format := pieces c.format.toList
    let filled ← Eval.ask fun h room => fill h room format args
    let count := placeholders format
    if count < args.length then
      Eval.warn
        s!"stringFormat received {args.length} argument(s) for {count} placeholder(s)"
    let result := String.ofList filled
    return {
      binding := some (name, .text result)
      output := some
        [("action", .text "stringFormat"), ("status", .text "simulated"),
         ("format_string", .text c.format), ("arguments", .list args),
         ("simulated_result", .text result), ("result_variable", .text name)] }

end FormatText

structure TextLength where
  inputVariable : Option String
  inputValue : Option String
  useVariable : Bool
  resultVariable : Option String

namespace TextLength

def decoder : Decoder TextLength :=
  TextLength.mk
    <$> .textOrNil ⟨"inputVariable", "input_variable"⟩
    <*> .textOrNil ⟨"inputValue", "input_value"⟩
    <*> .flag ⟨"useVariableForInput", "use_variable_for_input"⟩
    <*> .textOrNil ⟨"resultVariable", "result_variable"⟩

/-- The bytes that a text takes up; halves of pairs cannot be turned into bytes. -/
def bytes (s : String) : Except Fault Nat :=
  let ls := Text.lettersOf s
  match Text.halfRun? 0 ls with
  | some halves => .error (.noBytes halves)
  | none => .ok (ls.foldl (fun count l => count + l.byteCount) 0)

/-- The length counts bytes, as the length operator of the scripting language does. -/
def eval (c : TextLength) (scope : Scope) : Eval Effect :=
  match validName? c.resultVariable with
  | none =>
    return .refusal scope "stringLength"
      s!"Invalid result variable name: {nameText c.resultVariable}"
  | some name =>
    let input :=
      if c.useVariable then scope.get (c.inputVariable.getD "")
      else .text (c.inputValue.getD "")
    match input with
    | .text s => do
      let length ← Eval.lift (bytes s)
      return {
        binding := some (name, .int length)
        output := some
          [("action", .text "stringLength"), ("input", .text s), ("length", .int length),
           ("result_variable", .text name)] }
    | _ =>
      return .refusal scope "stringLength"
        s!"Variable \"{nameText c.inputVariable}\" is not a string."

end TextLength

end NodeScript
