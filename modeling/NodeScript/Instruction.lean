import NodeScript.Block
import NodeScript.Schema.Field
import NodeScript.Value.Printer

/-!
Instructions: one typed and configured step of a graph. Editors may write the configuration inline,
beside the other members of a node.
-/

namespace NodeScript

structure Instruction where
  tag : String
  label : Option String := none
  config : Dict String Value := {}
  runtimeId : Option String := none
deriving DecidableEq, Repr

namespace Instruction

def control (i : Instruction) : Option Control :=
  Control.ofTag? i.tag

/-- The label, or the tag of an instruction without one. -/
def displayName (i : Instruction) : String :=
  match i.label with
  | some label => if label = "" then i.tag else label
  | none => i.tag

/-- Names that editors give to some types of instruction. -/
def aliases : List (String × String) :=
  [("ifCondition", "if"), ("elseCondition", "else"), ("whileCondition", "while"),
   ("forLoopNumeric", "forNumeric"), ("forLoopGeneric", "forGeneric"), ("callFunction", "call"),
   ("variable", "setVariable"), ("concatStrings", "concatenate")]

def canonicalTag (tag : String) : String :=
  (aliases.lookup tag).getD tag

/-- Members of a node that are not part of its inline configuration. -/
def ownMembers : List String :=
  ["id", "type", "label", "config", "runtime_id", "runtimeId"]

def isOwnMember : Key → Bool
  | .text s => ownMembers.contains s
  | _ => false

/-- Values that stand for an absent configuration beside inline members. -/
def isBlankValue (h : Heap) : Value → Bool
  | .nil => true
  | .bool b => !b
  | .number n => n.isZero
  | .text s => s == ""
  | .vector _ | .moment _ => false
  | .table a =>
    match h.get a with
    | .array items => items.isEmpty
    | .map entries => entries.isEmpty

/-- Where the configuration of a node comes from. -/
inductive ConfigSource where
  | absent
  | given (v : Value)
  | merged (entries : Dict Key Value)

/-- Inline members come first; a configuration of the same node adds to them and prevails. -/
def configSource (h : Heap) (node : Dict Key Value) : Except Fault ConfigSource :=
  let given := node.get? (.text "config")
  let inline := node.filter fun k => !isOwnMember k
  if inline.isEmpty && !node.contains (.text "runtimeId") then
    .ok (match given with | some v => .given v | none => .absent)
  else
    match given with
    | none => .ok (.merged inline)
    | some v =>
      if isBlankValue h v then .ok (.merged inline)
      else
        match h.map? v with
        | some entries => .ok (.merged (inline.insertAll entries.entries))
        | none => .error (.notMapping (h.fullKindName v))

/-- The identifier may be written in either spelling; the plain one prevails. -/
def runtimeIdSource (node : Dict Key Value) : Option Value :=
  match node.get? (.text "runtime_id") with
  | some v => some v
  | none => node.get? (.text "runtimeId")

def checkTag (v : Value) : Checked String :=
  ((Check.text v).require (· != "") (.refused "Instruction type must be a non-empty string")).map
    canonicalTag

/-- How a report names the entry under a key; truth values count as numbers there. -/
def keyStep : Key → String
  | .moment m => m.display
  | .bool b => if b then "1" else "0"
  | k => k.plain.toOption.getD "<unprintable int object>"

/-- Every key of a configuration must be a text. -/
def checkEntries (entries : Dict Key Value) : Checked (Dict String Value) :=
  let one : Key × Value → Checked (String × Value)
    | (.text s, v) => .valid (s, v)
    | (k, _) =>
      ((Checked.fail .notText).within "[key]").within (keyStep k)
  (Checked.sequence (entries.entries.map one)).map fun pairs => ⟨pairs⟩

def checkConfig (h : Heap) : ConfigSource → Checked (Dict String Value)
  | .absent => .valid {}
  | .given v =>
    match h.map? v with
    | some entries => (checkEntries entries).within "config"
    | none => (Checked.fail .notMap).within "config"
  | .merged entries => (checkEntries entries).within "config"

def checkRuntimeId : Option Value → Checked (Option String)
  | some v => (Check.orNil Check.text v).within "runtime_id"
  | none => .valid none

/-- Makes an instruction from a node. A configuration that cannot be merged is a fault; all else
that is wrong is a list of problems. -/
def ofValue (h : Heap) (raw : Value) : Except Fault (Checked Instruction) :=
  match h.map? raw with
  | none => .ok (.fail (.notModel "Instruction"))
  | some node => do
    let config ← configSource h node
    let fields := node.fields
    return Instruction.mk
      <$> Decoder.required ⟨"id", "type"⟩ checkTag fields
      <*> Decoder.optional ⟨"label", "label"⟩ none (Check.orNil Check.text) fields
      <*> checkConfig h config
      <*> checkRuntimeId (runtimeIdSource node)

end Instruction

end NodeScript
