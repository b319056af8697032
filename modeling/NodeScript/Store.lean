import NodeScript.Library
import NodeScript.Store.Cycles
import NodeScript.Yaml.Reader

/-! Stores: graphs by key, with checks that look at all graphs together. -/

namespace NodeScript

structure Store where
  graphs : Dict String Graph := {}
  functionPrefix : String := defaultFunctionPrefix

/-- Why a store cannot be made. -/
inductive StoreError where
  | notMapping (kind : String)
  | graphsNotMapping
  | noNodes (key : String)
  | invalidGraph (key : String) (problems : List Problem)
  /-- A file is not there. -/
  | missingFile (path : String)
  /-- A directory stands where a file is expected. -/
  | isDirectory (path : String)
  /-- A file does not hold a readable document. -/
  | unreadable (path : String)
  | fault (f : Fault)
deriving DecidableEq, Repr

def StoreError.message : StoreError → String
  | .notMapping kind => s!"Expected a mapping of graphs, got {kind}"
  | .graphsNotMapping => "'graphs' must be a mapping of key -> graph"
  | .noNodes key => s!"Invalid graph '{key}': no 'nodes' instruction list"
  | .invalidGraph key _ => s!"Invalid graph '{key}':"
  | .missingFile path => s!"Cannot read {path}: "
  | .isDirectory path =>
    s!"Cannot read {path}: [Errno 21] Is a directory: {Text.quoted path}"
  | .unreadable path => s!"Invalid YAML/JSON in {path}: "
  | .fault f => f.message

namespace Store

def liftFault {α : Type} (e : Except Fault α) : Except StoreError α :=
  e.mapError .fault

/-- One graph of a store: a bare list is a graph with those nodes. -/
def checkGraph (h : Heap) (key : Key) (raw : Value) : Except StoreError (String × Graph) := do
  let checked ←
    match h.array? raw, h.map? raw with
    | some _, _ =>
      liftFault (Graph.ofFields h fun name => if name == "nodes" then some raw else none)
    | none, some entries =>
      let nodes := (Decoder.find? Graph.nodesName entries.fields).map Prod.snd
      if (nodes.bind h.array?).isNone then .error (.noNodes (← liftFault key.plain))
      else liftFault (Graph.ofValue h raw)
    | none, none => liftFault (Graph.ofValue h raw)
  match checked with
  | .valid g => return (← liftFault key.plain, g)
  | .invalid problems => .error (.invalidGraph (← liftFault key.plain) problems)

def checkGraphs (h : Heap) : List (Key × Value) → Except StoreError (List (String × Graph))
  | [] => .ok []
  | (k, v) :: rest => do
    let first ← checkGraph h k v
    return first :: (← checkGraphs h rest)

/-- A store from given data, in which the graphs may stand under a key of their own. -/
def ofValue (h : Heap) (v : Value) (functionPrefix : String := defaultFunctionPrefix) :
    Except StoreError Store :=
  match h.map? v with
  | none => .error (.notMapping (h.kindName v))
  | some entries =>
    match h.map? ((entries.get? (.text "graphs")).getD v) with
    | none => .error .graphsNotMapping
    | some graphs => do
      return { graphs := .ofList (← checkGraphs h graphs.entries), functionPrefix }

/-- A store from the text of a file; an empty document is an empty store. The heap holds the tables
that stand in the configurations of the graphs. -/
def ofText (h : Heap) (path text : String) (functionPrefix : String := defaultFunctionPrefix) :
    Except StoreError (Store × Heap) :=
  match Yaml.load h text with
  | .error .malformed => .error (.unreadable path)
  | .error (.fault f) => .error (.fault f)
  | .ok (.nil, h) => .ok ({ functionPrefix }, h)
  | .ok (v, h) => return (← ofValue h v functionPrefix, h)

def get? (s : Store) (key : String) : Option Graph := s.graphs.get? key

def contains (s : Store) (key : String) : Bool := s.graphs.contains key

def keys (s : Store) : List String := s.graphs.keys

def size (s : Store) : Nat := s.graphs.size

def insert (s : Store) (key : String) (g : Graph) : Store :=
  { s with graphs := s.graphs.insert key g }

/-- The keys of function graphs. -/
def functions (s : Store) : List String :=
  (s.graphs.entries.filter (·.2.isCallable)).map Prod.fst

/-- A store finds the graphs it holds. -/
def lookup (s : Store) : GraphLookup := fun _ key =>
  (s.get? key).map .graph

def library (s : Store) (settings : Settings) : Library :=
  ⟨some s.lookup, settings⟩

/-- From each graph to the keys of the functions that it calls, each edge once. -/
def callEdges (s : Store) : Arrows :=
  (s.graphs.entries.flatMap fun (key, g) =>
    g.calledFunctions.map fun name => (key, functionKey s.functionPrefix name)).eraseDups

/-- The keys of graphs and of called functions, in order, each once. -/
def callVertices (s : Store) : List String :=
  let mentioned := s.keys ++ s.callEdges.map Prod.snd
  mentioned.eraseDups.mergeSort fun a b => decide (a ≤ b)

/-- The complaints about calls that cannot work. -/
def callProblems (s : Store) (key : String) (g : Graph) : List String :=
  g.calledFunctions.filterMap fun name =>
    let target := functionKey s.functionPrefix name
    match s.get? target with
    | none => some s!"{key}: calls unknown function '{name}' ({target})"
    | some callee =>
      if callee.isCallable then none else some s!"{key}: '{target}' is not a function graph"

def errors (s : Store) : List String :=
  s.graphs.entries.flatMap fun (key, g) =>
    g.problems.map (fun p => s!"{key}: {p}") ++ s.callProblems key g

def maxCyclesReported : Nat := 100

/-- Recursion is allowed, since the depth of calls is limited, so it gives only warnings. -/
def warnings (s : Store) (search : Cycle.Search := Cycle.search) : List String :=
  let listing := search s.callVertices s.callEdges (maxCyclesReported + 1)
  let shown := (listing.cycles.take maxCyclesReported).map fun c =>
    s!"Recursive call cycle: {Cycle.line c}"
  if listing.cycles.length > maxCyclesReported then
    shown ++ [s!"More than {maxCyclesReported} recursive call cycles"]
  else
    shown ++ (listing.failure.map fun message =>
      s!"Could not perform cycle detection: {message}").toList

end Store

end NodeScript
