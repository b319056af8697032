import NodeScript.Machine

/-!
Calls of function graphs. A called graph runs in a fresh context that holds only its parameters;
its failure gives nil to the caller, whose log says why.
-/

namespace NodeScript

/-- What a lookup finds under a key: a graph, or data from which a graph is to be made. -/
inductive Found where
  | graph (g : Graph)
  | data (v : Value)

/-- Finds graphs by key. Data is looked at as it is at the time. -/
abbrev GraphLookup := Heap → String → Option Found

/-- Graphs as data, checked anew at every call. -/
def GraphLookup.ofData (graphs : Value) : GraphLookup := fun h key =>
  match (h.map? graphs).bind (·.get? (.text key)) with
  | some v => some (.data v)
  | none => none

structure Library where
  lookup : Option GraphLookup
  settings : Settings

namespace Library

/-- A graph from data that was looked up. -/
def graphOfData (h : Heap) (key : String) (v : Value) : Except Fault Graph :=
  match v, h.map? v with
  | .nil, _ => .error (.call (.notFound key))
  | _, none => .error (.notGraph (h.kindName v))
  | _, some entries =>
    let nodes := (Decoder.find? Graph.nodesName entries.fields).map Prod.snd
    if (nodes.bind h.array?).isNone then .error (.call (.noNodes key))
    else do
      match ← Graph.ofValue h v with
      | .valid g => return g
      | .invalid problems => .error (.call (.invalidGraph key problems.length))

/-- The function graph under a key. -/
def resolve (l : Library) (h : Heap) (key : String) : Except Fault Graph := do
  let graph ←
    match l.lookup with
    | none => .error (.call (.noLookup key))
    | some lookup =>
      match lookup h key with
      | none => .error (.call (.notFound key))
      | some (.graph g) => pure g
      | some (.data v) => graphOfData h key v
  if graph.isCallable then return graph else .error (.call (.notFunction key))

/-- The entry in the caller's log about a called graph that failed. -/
def failureRecord (key : String) (r : RunResult) : Record :=
  [("action", .text "subgraph_error"), ("status", .text "error"), ("graph_key", .text key),
   ("errors", .diagnostics r.errors)]

/-- Runs a function graph by its key and arguments for a caller that has so many levels of nesting
left. -/
abbrev Runner :=
  (room : Nat) → String → List Value → Heap → Array Diagnostic → Except Fault RunResult

/-- A caller hands its heap and notices over to the called graph and takes them back after. -/
def asCaller (run : Runner) : Caller := fun key args context =>
  let heap := context.heap
  let notices := context.notices
  let context := { context with heap := {}, notices := #[] }
  match run context.room key args heap notices with
  | .error f => .error f { context with heap, notices }
  | .ok r =>
    let context := { context with heap := r.context.heap, notices := r.context.notices }
    if r.success then .ok r.returnValue context
    else .ok .nil (context.addRecord (failureRecord key r))

/-- What a run of some instructions goes by, whose calls go to `run`. -/
def setupFor (settings : Settings) (run : Runner) (instructions : List Instruction)
    (functionScope : Bool) (room : Nat := nestingLimit) (cancelAfter : Option Nat := none) :
    Setup where
  program := .ofInstructions instructions
  settings := settings
  functionScope := functionScope
  caller := asCaller run
  cancelAfter := cancelAfter
  room := room

/-- Runs function graphs, calls nesting at most `depth` deep. -/
def runFunction (l : Library) : (depth : Nat) → Runner
  | 0, _, key, _, _, _ => .error (.call (.tooDeep l.settings.maxCallDepth key))
  | depth + 1, room, key, args, heap, notices => do
    let graph ← l.resolve heap key
    if room < callLevels then .error (.tooDeep .call)
    let setup :=
      setupFor l.settings (l.runFunction depth) graph.instructions true (room - callLevels)
    return setup.run (graph.parameters.getD []) args heap notices

/-- The caller for a run, from which calls nest at most `depth` deep. -/
def caller (l : Library) (depth : Nat) : Caller :=
  asCaller (l.runFunction depth)

/-- How deep calls may still nest below a run that is itself `depth` calls deep. -/
def remaining (l : Library) (depth : Int) : Nat :=
  (l.settings.maxCallDepth + 1 - depth).toNat

/-- What a run of some instructions goes by. -/
def setup (l : Library) (instructions : List Instruction) (functionScope : Bool)
    (cancelAfter : Option Nat := none) : Setup :=
  setupFor l.settings (l.runFunction l.settings.maxCallDepth) instructions functionScope
    nestingLimit cancelAfter

/-- Runs a graph in the scope that its declaration implies. -/
def runGraph (l : Library) (g : Graph) (args : List Value) (heap : Heap)
    (notices : Array Diagnostic) : RunResult :=
  (l.setup g.instructions g.isCallable).run (g.parameters.getD []) args heap notices

end Library

end NodeScript
