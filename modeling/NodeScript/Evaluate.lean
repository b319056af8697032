import NodeScript.Header.Call
import NodeScript.Header.ForLoop
import NodeScript.Leaf

/-!
Evaluation of one instruction: its configuration is decoded and what it does is done. Where control
goes next is not decided here.
-/

namespace NodeScript

/-- What evaluating an instruction gives. -/
inductive Reply where
  /-- No handler, a configuration that is refused, or a result that is already in the log. -/
  | nothing
  | record (r : Record)
  | truth (b : Bool)
  | entry (e : LoopEntry)

/-- Instructions with a handler: control instructions other than marks, and leaves. -/
inductive HandlerKind where
  | condition
  | numericFor
  | genericFor
  | breakLoop
  | giveBack
  | call
  | leaf (kind : LeafKind)
deriving DecidableEq, Repr

namespace HandlerKind

def ofControl? : Control → Option HandlerKind
  | .branch | .whileLoop => some .condition
  | .numericFor => some .numericFor
  | .genericFor => some .genericFor
  | .breakLoop => some .breakLoop
  | .giveBack => some .giveBack
  | .call => some .call
  | .otherwise | .endBranch | .endWhile | .endNumericFor | .endGenericFor => none

def ofTag? (tag : String) : Option HandlerKind :=
  match Control.ofTag? tag with
  | some control => ofControl? control
  | none => (LeafKind.ofTag? tag).map .leaf

/-- The name of the configuration in listings. -/
def configName : HandlerKind → String
  | .condition => "ConditionConfig"
  | .numericFor => "NumericForConfig"
  | .genericFor => "GenericForConfig"
  | .breakLoop => "EmptyConfig"
  | .giveBack => "ReturnConfig"
  | .call => "CallConfig"
  | .leaf kind => kind.configName

def description : HandlerKind → String
  | .leaf kind => kind.description
  | _ => ""

/-- The tags of all instructions that have a handler, in alphabetical order. -/
def tags : List String :=
  let all := (Control.all.filter (ofControl? · |>.isSome)).map Control.tag ++
    LeafKind.all.map LeafKind.tag
  all.mergeSort fun a b => decide (a ≤ b)

end HandlerKind

/-- A handler with its configuration. -/
inductive Handler where
  | condition (c : Condition)
  | numericFor (c : NumericFor)
  | genericFor (c : GenericFor)
  | breakLoop
  | giveBack (c : GiveBack)
  | call (c : Call)
  | leaf (l : Leaf)

namespace Handler

def decoder (h : Heap) : HandlerKind → Decoder Handler
  | .condition => .condition <$> Condition.decoder
  | .numericFor => .numericFor <$> NumericFor.decoder
  | .genericFor => .genericFor <$> GenericFor.decoder
  | .breakLoop => pure .breakLoop
  | .giveBack => .giveBack <$> GiveBack.decoder
  | .call => .call <$> Call.decoder h
  | .leaf kind => .leaf <$> Leaf.decoder h kind

def run (start : String) (caller : Caller) : Handler → Exec Reply
  | .condition c => return .truth (← Exec.evaluate c.eval)
  | .numericFor c => do return .entry (← (← Exec.evaluate c.eval).apply)
  | .genericFor c => do return .entry (← (← Exec.evaluate c.eval).apply)
  | .breakLoop => do
    modify Context.requestBreak
    return .record [("action", .text "break")]
  | .giveBack c => return .record (← c.run)
  | .call c => return .record (← c.run start caller)
  | .leaf l => do
    match ← Exec.leaf l with
    | some r => return .record r
    | none => return .nothing

end Handler

namespace Instruction

/-- The report of a configuration that is refused. -/
def configMessage (i : Instruction) (problems : List Problem) : String :=
  s!"Invalid configuration for '{i.tag}': " ++ "; ".intercalate (problems.map Problem.line)

/-- Warns of a refused configuration and logs it. -/
def refuse (i : Instruction) (problems : List Problem) (c : Context) : Context :=
  let message := i.configMessage problems
  (c.warn message).addRecord
    [("node", .text i.displayName), ("status", .text "error"), ("message", .text message)]

/-- Evaluates the instruction; calls go to `caller`, with `start` in front of function names. -/
def evaluate (i : Instruction) (start : String) (caller : Caller) : Exec Reply :=
  match HandlerKind.ofTag? i.tag with
  | none => return .nothing
  | some kind => do
    match Handler.decoder (← get).heap kind i.config.get? with
    | .invalid problems =>
      modify (i.refuse problems)
      return .nothing
    | .valid handler => handler.run start caller

end Instruction

end NodeScript
