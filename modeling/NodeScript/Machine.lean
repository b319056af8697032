import NodeScript.Evaluate
import NodeScript.Settings

/-!
The machine that runs a flat instruction list. Each step honours a pending return or break, else
evaluates the instruction at the program counter and finds the next one. Whatever fails ends the
run with a diagnostic.
-/

namespace NodeScript

/-- An instruction list that is ready to run: every instruction has an identifier. -/
structure Program where
  instructions : Array Instruction
  marks : List Mark

namespace Program

/-- An instruction without an identifier is given one by its place. -/
def identify (i : Instruction) (index : Nat) : Instruction :=
  match givenName? i.runtimeId with
  | some _ => i
  | none => { i with runtimeId := some s!"exec-node-{index}" }

def ofInstructions (instructions : List Instruction) : Program where
  instructions := (instructions.zipIdx.map fun (i, index) => identify i index).toArray
  marks := instructions.map Instruction.control

def size (p : Program) : Nat := p.instructions.size

/-- The end of a block whose body follows `pc`. -/
def blockEnd (p : Program) (kind : BlockKind) (opener : Control) (pc : Nat) : Exec Nat :=
  match Block.endAfter? p.marks kind pc with
  | some index => return index
  | none => throw (.structural (.missingEnd kind.terminator.tag opener.tag pc))

end Program

namespace Exec

def expectLoop (kind : LoopKind) (pc : Nat) (terminator : Control) : Exec LoopFrame := do
  match (← get).loops.expect kind pc terminator.tag with
  | .ok frame => return frame
  | .error e => throw (.structural e)

def pushLoop (frame : LoopFrame) : Exec Unit :=
  modify fun c => { c with loops := (c.loops.pushIfNew frame).2 }

def popLoopAt (start : Nat) : Exec Unit :=
  modify fun c => { c with loops := (c.loops.popIfStart start).2 }

def popLoop : Exec Unit :=
  modify fun c => { c with loops := c.loops.tail }

def replaceTop (state : LoopState) : Exec Unit :=
  modify fun c =>
    match c.loops with
    | top :: rest => { c with loops := { top with state } :: rest }
    | [] => c

end Exec

namespace Program

/-- Enters a loop whose header stands at `pc`, or passes it by. -/
def enterLoop (p : Program) (kind : BlockKind) (state? : Option LoopState) (pc : Nat) :
    Exec Nat := do
  let finish ← p.blockEnd kind kind.opener pc
  match state? with
  | some state =>
    Exec.pushLoop ⟨pc, finish, state⟩
    return pc + 1
  | none =>
    Exec.popLoopAt pc
    return finish + 1

/-- The end of a numeric loop. The control variable keeps its last value in range. -/
def endNumericFor (pc : Nat) : Exec Nat := do
  let frame ← Exec.expectLoop .numeric pc .endNumericFor
  match frame.state with
  | .numeric loop =>
    let loop ← Exec.lift loop.advance
    if loop.inRange then
      Exec.replaceTop (.numeric loop)
      modify fun c => c.setVariable loop.controlVariable (.number loop.current)
      return frame.bodyIndex
    else
      Exec.popLoop
      return frame.exitIndex
  | _ => return frame.exitIndex

/-- The end of a generic loop. -/
def endGenericFor (pc : Nat) : Exec Nat := do
  let frame ← Exec.expectLoop .generic pc .endGenericFor
  match frame.state with
  | .generic loop =>
    let (found, loop) := loop.advance (← get).heap
    match ← Exec.lift found with
    | some (k, v) =>
      Exec.replaceTop (.generic loop)
      modify fun c => (c.setVariable loop.keyVariable k).setVariable loop.valueVariable v
      return frame.bodyIndex
    | none =>
      Exec.popLoop
      return frame.exitIndex
  | _ => return frame.exitIndex

/-- Where control goes after a control instruction. -/
def next (p : Program) (pc : Nat) (control : Control) (reply : Reply) : Exec Nat :=
  match control, reply with
  | .branch, .truth true => return pc + 1
  | .branch, _ =>
    match Block.elseOrEndAfter? p.marks pc with
    | some index => return index + 1
    | none => throw (.structural (.missingElseOrEnd pc))
  | .otherwise, _ => return (← p.blockEnd .branch .otherwise pc) + 1
  | .whileLoop, .truth true => p.enterLoop .whileLoop (some .whileLoop) pc
  | .whileLoop, _ => p.enterLoop .whileLoop none pc
  | .endWhile, _ => return (← Exec.expectLoop .whileLoop pc .endWhile).headerIndex
  | .numericFor, .entry (.numeric loop) => p.enterLoop .numericFor (some (.numeric loop)) pc
  | .numericFor, _ => p.enterLoop .numericFor none pc
  | .endNumericFor, _ => endNumericFor pc
  | .genericFor, .entry (.generic loop) => p.enterLoop .genericFor (some (.generic loop)) pc
  | .genericFor, _ => p.enterLoop .genericFor none pc
  | .endGenericFor, _ => endGenericFor pc
  | .endBranch, _ | .breakLoop, _ | .giveBack, _ | .call, _ => return pc + 1

end Program

/-- What a run goes by. -/
structure Setup where
  program : Program
  settings : Settings
  /-- Whether a return ends the run. -/
  functionScope : Bool
  caller : Caller
  /-- The number of steps after which the host cancels the run. -/
  cancelAfter : Option Nat := none
  /-- The levels of nesting that are free. -/
  room : Nat := nestingLimit

/-- The state of a run between two steps. -/
structure Machine where
  context : Context
  pc : Nat := 0
  iterations : Nat := 0
  /-- Indices whose unknown type has been reported. -/
  reported : List Nat := []

/-- How a run ends. -/
inductive Ending where
  /-- Control passed the last instruction. -/
  | finished
  /-- A function returned. -/
  | returned
  /-- A diagnostic says what went wrong. -/
  | failed
  /-- The limit of steps was reached. -/
  | exhausted
deriving DecidableEq, Repr

namespace Fault

/-- The kind under which a fault is reported. -/
def kind : Fault → DiagnosticKind
  | .structural _ => .structural
  | .call (.tooDeep _ _) => .resource
  | _ => .handlerFault

/-- The text under which a fault of an instruction is reported. -/
def report (f : Fault) (name : String) (index : Nat) : String :=
  match f with
  | .structural e => e.message
  | .call e => e.message
  | f => s!"Error executing '{name}': {f.message} at index {index}"

end Fault

namespace Setup

variable (s : Setup)

/-- Reports an error about the instruction at an index. -/
def fail (kind : DiagnosticKind) (message : String) (index : Option Nat) (c : Context) : Context :=
  c.report {
    kind, severity := .error, message
    index := index.map Int.ofNat
    label := index.bind fun i => s.program.instructions[i]?.map Instruction.displayName }

/-- The log entry of an instruction's result. -/
def resultRecord (i : Instruction) (output : Record) : Record :=
  [("instruction_type", .text i.tag), ("label", .textOrNil i.label),
   ("runtime_id", .textOrNil i.runtimeId), ("output", .record output)]

/-- Evaluates an instruction, logs its result and finds the next index. -/
def perform (pc : Nat) (i : Instruction) : Exec Nat := do
  let reply ← i.evaluate s.settings.functionPrefix s.caller
  match reply with
  | .record output => modify fun c => c.addRecord (resultRecord i output)
  | _ => pure ()
  match i.control with
  | some control => s.program.next pc control reply
  | none => return pc + 1

def isUnknown (i : Instruction) : Bool :=
  i.control.isNone && (HandlerKind.ofTag? i.tag).isNone

/-- Passes an instruction of unknown type by, with a warning at the first visit. -/
def passUnknown (i : Instruction) (m : Machine) : Machine :=
  if s.settings.warnUnknownTypes && !m.reported.contains m.pc then
    { m with
      context := m.context.warn s!"Unknown instruction type '{i.tag}' treated as a no-op"
      reported := m.pc :: m.reported
      pc := m.pc + 1 }
  else { m with pc := m.pc + 1 }

/-- Dispatches an instruction when nothing is pending. -/
def dispatch (i : Instruction) (m : Machine) : Machine × Option Ending :=
  if isUnknown i then (s.passUnknown i m, none)
  else
    let { context, pc, iterations, reported } := m
    match s.perform pc i context with
    | .ok next context => ({ context, pc := next, iterations, reported }, none)
    | .error f context =>
      ({ context := s.fail f.kind (f.report i.displayName pc) (some pc) context
         pc, iterations, reported }, some .failed)

/-- Leaves the innermost loop because of a break. -/
def leaveLoop (m : Machine) : Machine × Option Ending :=
  match m.context.loops with
  | frame :: rest =>
    ({ m with
       context := { m.context with loops := rest, breakRequested := false }
       pc := frame.exitIndex }, none)
  | [] =>
    let message :=
      s!"Execution halted: Break encountered outside of a loop (Index {m.pc})."
    ({ m with context := s.fail .structural message (some m.pc) m.context }, some .failed)

def isCancelled (m : Machine) : Bool :=
  match s.cancelAfter with
  | some count => count ≤ m.iterations
  | none => false

/-- One step at an instruction. -/
def step (i : Instruction) (m : Machine) : Machine × Option Ending :=
  if s.isCancelled m then
    ({ m with
       context := s.fail .cancelled "Execution cancelled by host" (some m.pc) m.context },
     some .failed)
  else
    let { context, pc, iterations, reported } := m
    let context := { context with position := some (pc : Int), label := some i.displayName }
    let m := { context, pc, iterations := iterations + 1, reported }
    if m.context.returned.isSome && s.functionScope then (m, some .returned)
    else if m.context.breakRequested then s.leaveLoop m
    else s.dispatch i m

/-- Takes steps until the run ends, `budget` of them at most. -/
def steps : (budget : Nat) → Machine → Machine × Ending
  | 0, m => (m, if m.pc < s.program.size then .exhausted else .finished)
  | budget + 1, m =>
    match s.program.instructions[m.pc]? with
    | none => (m, .finished)
    | some i =>
      match s.step i m with
      | (m, some ending) => (m, ending)
      | (m, none) => steps budget m

def limitMessage : String :=
  s!"Execution halted: Maximum iteration limit ({s.settings.maxIterations}) reached. " ++
    "Possible infinite loop detected."

/-- What is reported when a run has ended: the limit of steps, a break outside of a loop, or loops
that were never closed. -/
def conclude (m : Machine) (ending : Ending) : Bool × Context :=
  match ending with
  | .failed => (false, m.context)
  | .exhausted =>
    (false, s.fail .resource s.limitMessage (some m.pc) m.context)
  | .finished | .returned =>
    if m.context.loops.isEmpty then
      if m.context.breakRequested then
        (false, s.fail .structural "Execution halted: Break encountered outside of a loop."
          (m.context.position.map Int.toNat) m.context)
      else (true, m.context)
    else
      let shown := m.context.loops.describe
      let message :=
        s!"Execution finished, but loop stack is not empty: [{shown}]. Missing End node(s)?"
      (true, { m.context with position := none }.warn message)

end Setup

/-- What a run leaves behind. -/
structure RunResult where
  success : Bool
  iterations : Nat
  context : Context

namespace RunResult

def returnValue (r : RunResult) : Value :=
  .ofOption r.context.returned

def errors (r : RunResult) : List Diagnostic :=
  r.context.diagnostics.toList.filter Diagnostic.isError

def warnings (r : RunResult) : List Diagnostic :=
  r.context.diagnostics.toList.filter (!·.isError)

end RunResult

/-- Sets each parameter to its argument, or to nil if there is none. -/
def Context.bindParameters : List String → List Value → Context → Context
  | [], _, c => c
  | name :: names, args, c =>
    Context.bindParameters names args.tail (c.setVariable name (args.head?.getD .nil))

/-- A fresh context that shares the heap and the notices. -/
def Context.fresh (heap : Heap) (notices : Array Diagnostic) : Context :=
  { heap, notices }

/-- Binds parameters that a host names by any values; what cannot be a name is refused with a
warning. -/
def Context.bindNamed : List Value → List Value → Exec Unit
  | [], _ => return
  | name :: names, args => do
    match (← get).setVariableNamed name (args.head?.getD .nil) with
    | .ok (_, c) => set c
    | .error f => throw f
    Context.bindNamed names args.tail

/-- The context in which a program starts. -/
def Setup.start (s : Setup) (heap : Heap) (notices : Array Diagnostic) : Context :=
  { Context.fresh heap notices with room := s.room }

/-- Runs a program from its first instruction in a context. -/
def Setup.runFrom (s : Setup) (context : Context) : RunResult :=
  let (m, ending) := s.steps s.settings.maxIterations { context }
  let (success, context) := s.conclude m ending
  { success, iterations := m.iterations, context }

/-- Runs a program with its parameters bound to arguments. -/
def Setup.run (s : Setup) (parameters : List String) (args : List Value) (heap : Heap)
    (notices : Array Diagnostic) : RunResult :=
  s.runFrom ((s.start heap notices).bindParameters parameters args)

/-- Runs a program for a host that names the parameters by any values. -/
def Setup.runNamed (s : Setup) (parameters args : List Value) : Exec RunResult := do
  Context.bindNamed parameters args
  return s.runFrom (← get)

end NodeScript
