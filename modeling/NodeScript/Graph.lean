import NodeScript.Instruction
import NodeScript.Text.Identifier

/-!
Graphs: instruction lists, with parameters if they are functions. The static check of a graph reads
only its type tags and its parameter names.
-/

namespace NodeScript

/-- Function graphs are stored under their name with this in front. -/
def defaultFunctionPrefix : String := "func:"

/-- The key under which a function is stored. -/
def functionKey (start name : String) : String :=
  if start.isPrefixOf name then name else start ++ name

/-- Where a graph may run. -/
inductive Side where
  | client
  | server
  | shared
deriving DecidableEq, Repr

namespace Side

def options : List (String × Side) :=
  [("client", .client), ("server", .server), ("shared", .shared)]

def name : Side → String
  | .client => "client"
  | .server => "server"
  | .shared => "shared"

end Side

structure Graph where
  instructions : List Instruction := []
  /-- Present only on function graphs. -/
  parameters : Option (List String) := none
  side : Option Side := none
  description : Option String := none
deriving DecidableEq, Repr

namespace Graph

def isCallable (g : Graph) : Bool :=
  g.parameters.isSome

def marks (g : Graph) : List Mark :=
  g.instructions.map Instruction.control

/-- Instructions from nodes; the first fault ends the check. -/
def checkNodes (h : Heap) : (index : Nat) → List Value → Except Fault (Checked (List Instruction))
  | _, [] => .ok (.valid [])
  | index, v :: vs => do
    let first ← Instruction.ofValue h v
    let others ← checkNodes h (index + 1) vs
    return List.cons <$> first.within (toString index) <*> others

def nodesName : FieldName := ⟨"nodes", "instructions"⟩

def checkInstructions (h : Heap) (fields : Fields) : Except Fault (Checked (List Instruction)) :=
  match Decoder.find? nodesName fields with
  | none => .ok (.valid [])
  | some (used, v) =>
    match h.array? v with
    | some items => return (← checkNodes h 0 items).within used
    | none => .ok ((Checked.fail .notList).within used)

def ofFields (h : Heap) (fields : Fields) : Except Fault (Checked Graph) := do
  let instructions ← checkInstructions h fields
  return Graph.mk
    <$> instructions
    <*> Decoder.optional ⟨"parameters", "parameters"⟩ none
      (Check.orNil (Check.list h Check.text)) fields
    <*> Decoder.optional ⟨"scope", "scope"⟩ none (Check.orNil (Check.choice Side.options)) fields
    <*> Decoder.optional ⟨"description", "description"⟩ none (Check.orNil Check.text) fields

/-- Makes a graph from given data. -/
def ofValue (h : Heap) (raw : Value) : Except Fault (Checked Graph) :=
  match h.map? raw with
  | none => .ok (.fail (.notModel "Graph"))
  | some entries => ofFields h entries.fields

/-- The complaint about an opener without its terminator. -/
def openerProblem? (marks : List Mark) (index : Nat) : Option String :=
  match marks[index]? with
  | some (some control) =>
    match control.opens? with
    | none => none
    | some kind =>
      if (Block.endAfter? marks kind index).isSome then none
      else if kind = .branch then some s!"Missing matching 'End If' for 'If' at index {index}"
      else some s!"Missing matching '{kind.terminator.tag}' for '{control.tag}' at index {index}"
  | _ => none

def blockProblems (g : Graph) : List String :=
  let marks := g.marks
  let openers := (List.range marks.length).filterMap (openerProblem? marks)
  let terminators := (Block.unmatched marks).map fun index =>
    let tag := (g.instructions[index]?.map Instruction.tag).getD ""
    s!"Unmatched '{tag}' at index {index} (no open block to close)"
  openers ++ terminators

/-- Names that occur again later, each once, in the order of their first occurrence; `earlier` are
the names before the list. -/
def duplicates (earlier : List String) : List String → List String
  | [] => []
  | name :: rest =>
    let others := duplicates (name :: earlier) rest
    if rest.contains name && !earlier.contains name then name :: others else others

def parameterProblems (names : List String) : List String :=
  (names.filter (!Text.isParameterName ·)).map (fun name => s!"Invalid parameter name: '{name}'") ++
    (duplicates [] names).map (fun name => s!"Duplicate parameter name: '{name}'")

/-- What is wrong with the block structure and the parameters. -/
def problems (g : Graph) : List String :=
  g.blockProblems ++ parameterProblems (g.parameters.getD [])

/-- The names of the functions that call instructions mention, in order. -/
def calledFunctions (g : Graph) : List String :=
  g.instructions.filterMap fun i =>
    if i.control = some .call then
      match i.config.get? "functionName" with
      | some (.text name) => if name = "" then none else some name
      | _ => none
    else none

end Graph

end NodeScript
