import NodeScript.Leaf.Arithmetic
import NodeScript.Leaf.Conversion
import NodeScript.Leaf.Events
import NodeScript.Leaf.Strings
import NodeScript.Leaf.Tables
import NodeScript.Leaf.Variables

/-! All leaf instructions: their tags, their configurations and their evaluation. -/

namespace NodeScript

inductive LeafKind where
  | setVariable
  | readVariable
  | print
  | arithmetic
  | wait
  | typeCheck
  | toText
  | toNumber
  | makeVector
  | concatenate
  | formatText
  | textLength
  | createTable
  | setTableValue
  | getTableValue
  | insertIntoTable
  | getTableLength
  | serverEvent
  | clientEvent
deriving DecidableEq, Repr

namespace LeafKind

def all : List LeafKind :=
  [.setVariable, .readVariable, .print, .arithmetic, .wait, .typeCheck, .toText, .toNumber,
   .makeVector, .concatenate, .formatText, .textLength, .createTable, .setTableValue,
   .getTableValue, .insertIntoTable, .getTableLength, .serverEvent, .clientEvent]

def tag : LeafKind → String
  | .setVariable => "setVariable"
  | .readVariable => "readVariable"
  | .print => "print"
  | .arithmetic => "math"
  | .wait => "wait"
  | .typeCheck => "typeCheck"
  | .toText => "toString"
  | .toNumber => "toNumber"
  | .makeVector => "vector3"
  | .concatenate => "concatenate"
  | .formatText => "stringFormat"
  | .textLength => "stringLength"
  | .createTable => "createTable"
  | .setTableValue => "setTableValue"
  | .getTableValue => "getTableValue"
  | .insertIntoTable => "insertIntoTable"
  | .getTableLength => "getTableLength"
  | .serverEvent => "triggerServerEvent"
  | .clientEvent => "triggerClientEvent"

def ofTag? (tag : String) : Option LeafKind :=
  all.find? (·.tag == tag)

/-- The name of the configuration in listings. -/
def configName : LeafKind → String
  | .setVariable => "SetVariableConfig"
  | .readVariable => "ReadVariableConfig"
  | .print => "PrintConfig"
  | .arithmetic => "MathConfig"
  | .wait => "WaitConfig"
  | .typeCheck | .toText | .toNumber => "ConversionConfig"
  | .makeVector => "Vector3Config"
  | .concatenate => "ConcatenateConfig"
  | .formatText => "StringFormatConfig"
  | .textLength => "StringLengthConfig"
  | .createTable => "CreateTableConfig"
  | .setTableValue => "SetTableValueConfig"
  | .getTableValue => "GetTableValueConfig"
  | .insertIntoTable => "InsertIntoTableConfig"
  | .getTableLength => "GetTableLengthConfig"
  | .serverEvent => "ServerEventConfig"
  | .clientEvent => "ClientEventConfig"

def description : LeafKind → String
  | .wait => "Record the intended delay. Execution never blocks."
  | _ => ""

end LeafKind

/-- A leaf instruction with its configuration. -/
inductive Leaf where
  | setVariable (c : SetVariable)
  | readVariable (c : ReadVariable)
  | print (c : Print)
  | arithmetic (c : Arithmetic)
  | wait (c : Wait)
  | typeCheck (c : Conversion)
  | toText (c : Conversion)
  | toNumber (c : Conversion)
  | makeVector (c : MakeVector)
  | concatenate (c : Concatenate)
  | formatText (c : FormatText)
  | textLength (c : TextLength)
  | createTable (c : CreateTable)
  | setTableValue (c : SetTableValue)
  | getTableValue (c : GetTableValue)
  | insertIntoTable (c : InsertIntoTable)
  | getTableLength (c : GetTableLength)
  | serverEvent (c : ServerEvent)
  | clientEvent (c : ClientEvent)

namespace Leaf

def decoder (h : Heap) : LeafKind → Decoder Leaf
  | .setVariable => .setVariable <$> SetVariable.decoder
  | .readVariable => .readVariable <$> ReadVariable.decoder
  | .print => .print <$> Print.decoder
  | .arithmetic => .arithmetic <$> Arithmetic.decoder
  | .wait => .wait <$> Wait.decoder
  | .typeCheck => .typeCheck <$> Conversion.decoder
  | .toText => .toText <$> Conversion.decoder
  | .toNumber => .toNumber <$> Conversion.decoder
  | .makeVector => .makeVector <$> MakeVector.decoder
  | .concatenate => .concatenate <$> Concatenate.decoder
  | .formatText => .formatText <$> FormatText.decoder h
  | .textLength => .textLength <$> TextLength.decoder
  | .createTable => .createTable <$> CreateTable.decoder
  | .setTableValue => .setTableValue <$> SetTableValue.decoder
  | .getTableValue => .getTableValue <$> GetTableValue.decoder
  | .insertIntoTable => .insertIntoTable <$> InsertIntoTable.decoder
  | .getTableLength => .getTableLength <$> GetTableLength.decoder
  | .serverEvent => .serverEvent <$> ServerEvent.decoder h
  | .clientEvent => .clientEvent <$> ClientEvent.decoder h

def eval : Leaf → Scope → Eval Effect
  | .setVariable c => c.eval
  | .readVariable c => c.eval
  | .print c => c.eval
  | .arithmetic c => c.eval
  | .wait c => c.eval
  | .typeCheck c => c.typeCheck
  | .toText c => c.toText
  | .toNumber c => c.toNumber
  | .makeVector c => c.eval
  | .concatenate c => c.eval
  | .formatText c => c.eval
  | .textLength c => c.eval
  | .createTable c => c.eval
  | .setTableValue c => c.eval
  | .getTableValue c => c.eval
  | .insertIntoTable c => c.eval
  | .getTableLength c => c.eval
  | .serverEvent c => c.eval
  | .clientEvent c => c.eval

end Leaf

/-- Evaluates a leaf instruction and commits its effect; the answer is its result. -/
def Exec.leaf (l : Leaf) : Exec (Option Record) := do
  let effect ← Exec.evaluate l.eval
  modify fun c => c.commit effect
  return effect.output

end NodeScript
