import NodeScript.Library
import NodeScript.Text.Markup

/-!
What is shown on a terminal: the instructions of a graph as an outline that is nested by blocks, and
the outcome of a run as tables. Both are data with markup; laying them out is not done here.
-/

namespace NodeScript

/-- A label with what hangs under it. -/
inductive Outline where
  | node (label : String) (children : List Outline)
deriving Repr

/-- Rows of cells below column headers. -/
structure TextTable where
  title : String
  columns : List String
  rows : List (List String)
deriving DecidableEq, Repr

/-- One thing that is printed. -/
inductive Printed where
  | line (markup : String)
  | outline (o : Outline)
  | table (t : TextTable)

namespace Display

open Text

def maxCellWidth : Nat := 60

/-- Long texts end in three dots. -/
def truncated (s : String) : String :=
  let ls := lettersOf s
  if ls.length ≤ maxCellWidth then s else ofLetters (ls.take (maxCellWidth - 3)) ++ "..."

/-- The symbol and the style of an instruction. -/
def style : Mark → String × String
  | some .branch => ("[?]", "magenta")
  | some .otherwise => ("[:]", "magenta")
  | some .endBranch => ("[/]", "magenta dim")
  | some .whileLoop => ("[~]", "blue")
  | some .endWhile => ("[/]", "blue dim")
  | some .numericFor => ("[#]", "green")
  | some .endNumericFor => ("[/]", "green dim")
  | some .genericFor => ("[*]", "green")
  | some .endGenericFor => ("[/]", "green dim")
  | some .breakLoop => ("[!]", "yellow")
  | some .giveBack => ("[<]", "yellow")
  | some .call => ("[>]", "cyan")
  | none => ("[ ]", "white")

def summaryParts (h : Heap) : List (String × Value) → Except Fault (List String)
  | [] => .ok []
  | (name, v) :: rest =>
    if (h.array? v).isSome then summaryParts h rest
    else do
      let shown ← h.jsonOrDisplay nestingLimit v
      return s!"{name}={shown}" :: (← summaryParts h rest)

/-- The configuration on one line, lists left out. -/
def configSummary (h : Heap) (config : Dict String Value) : Except Fault String :=
  return truncated (" ".intercalate (← summaryParts h config.entries))

/-- The label of an instruction in an outline. -/
def instructionLabel (h : Heap) (i : Instruction) (index : Nat) : Except Fault String := do
  let (symbol, color) := style i.control
  let name := s!"[{color}]{escapeMarkup symbol} {escapeMarkup i.displayName}[/] [dim]#{index}[/]"
  let summary ← configSummary h i.config
  return if summary = "" then name else s!"{name} [dim]{escapeMarkup summary}[/]"

/-- The label of a terminator or `else` without a block. -/
def strayLabel (i : Instruction) (index : Nat) : String :=
  let (symbol, _) := style i.control
  s!"[red]{escapeMarkup symbol} {escapeMarkup i.displayName} #{index} (unmatched)[/]"

/-- A label whose children are still being collected, the last one first. -/
structure OpenNode where
  label : String
  children : List Outline := []

namespace OpenNode

def add (n : OpenNode) (o : Outline) : OpenNode :=
  { n with children := o :: n.children }

def close (n : OpenNode) : Outline :=
  .node n.label n.children.reverse

end OpenNode

/-- The outline in progress: the innermost open node, and those around it, the root last. -/
structure Drawing where
  top : OpenNode
  below : List OpenNode := []

namespace Drawing

def add (d : Drawing) (o : Outline) : Drawing :=
  { d with top := d.top.add o }

/-- Closes the innermost block; the root stays open. -/
def closeTop (d : Drawing) : Drawing :=
  match d.below with
  | parent :: rest => { top := parent.add d.top.close, below := rest }
  | [] => d

def openBlock (d : Drawing) (label : String) : Drawing :=
  { top := { label }, below := d.top :: d.below }

/-- Adds an instruction: a terminator or `else` closes a block first, an opener or `else` opens one
after. -/
def addInstruction (d : Drawing) (i : Instruction) (index : Nat) (label : String) : Drawing :=
  if Block.endsBody i.control && d.below.isEmpty then d.add (.node (strayLabel i index) [])
  else
    let d := if Block.endsBody i.control then d.closeTop else d
    if Block.startsBody i.control then d.openBlock label else d.add (.node label [])

/-- The whole outline, with the blocks that were never closed. -/
def close (d : Drawing) : Outline :=
  d.below.foldl (fun o n => (n.add o).close) d.top.close

end Drawing

def drawInstructions (h : Heap) : (index : Nat) → List Instruction → Drawing →
    Except Fault Drawing
  | _, [], d => .ok d
  | index, i :: is, d => do
    let label ← instructionLabel h i index
    drawInstructions h (index + 1) is (d.addInstruction i index label)

def graphTitle (g : Graph) (title : String) : String :=
  match g.parameters with
  | none => s!"[bold]{escapeMarkup title}[/]"
  | some names =>
    let shown := ", ".intercalate (names.map escapeMarkup)
    s!"[bold]{escapeMarkup title}[/] [dim]function({shown})[/]"

/-- The outline of a graph. Block bodies hang under their openers, and `else` begins a branch beside
its `if`. -/
def outline (h : Heap) (g : Graph) (title : String) : Except Fault Outline := do
  let d ← drawInstructions h 0 g.instructions { top := { label := graphTitle g title } }
  return d.close

/-- Whether a part of a log entry says something. -/
def isPresent : Tree → Bool
  | .nil => false
  | .bool b => b
  | .number n => !n.isZero
  | .text s => s != ""
  | .list items => !items.isEmpty
  | .map entries => !entries.isEmpty
  | .vector _ | .moment _ | .again _ _ => true

/-- The first of two fields that says something, as a text. -/
def firstPresent (entry : Tree) (first second : String) : Except Fault String :=
  match (entry.field? first).filter isPresent, (entry.field? second).filter isPresent with
  | some t, _ => t.plain nestingLimit
  | none, some t => t.plain nestingLimit
  | none, none => .ok ""

/-- The name and the output that a row shows for a log entry. -/
def entryParts (entry : Tree) : Except Fault (String × Tree) :=
  match entry, entry.field? "output" with
  | .map _, some output => return (← firstPresent entry "label" "instruction_type", output)
  | .map entries, none =>
    return (← firstPresent entry "action" "node",
      .map (entries.filter fun (k, _) => !(k == Key.text "action")))
  | t, _ => .ok ("", t)

def resultRows (h : Heap) : (number : Nat) → List Entry → Except Fault (List (List String))
  | _, [] => .ok []
  | number, entry :: rest => do
    let (name, output) ← entryParts (h.entryTree entry)
    let shown ← output.jsonOrDisplay nestingLimit
    let row := [toString number, escapeMarkup name, escapeMarkup (truncated shown)]
    return row :: (← resultRows h (number + 1) rest)

/-- The log as a table. -/
def resultsTable (h : Heap) (entries : List Entry) : Except Fault TextTable :=
  return ⟨"Results", ["#", "Instruction", "Output"], ← resultRows h 1 entries⟩

def variableRows (h : Heap) : List (String × Value) → Except Fault (List (List String))
  | [] => .ok []
  | (name, v) :: rest => do
    let shown ← h.jsonOrDisplay nestingLimit v
    return [escapeMarkup name, escapeMarkup (truncated shown)] :: (← variableRows h rest)

def variablesTable (h : Heap) (bindings : List (String × Value)) : Except Fault TextTable :=
  return ⟨"Variables", ["Name", "Value"], ← variableRows h bindings⟩

def severityStyle : Severity → String
  | .error => "red bold"
  | .warning => "yellow"

def diagnosticRow (d : Diagnostic) : List String :=
  [s!"[{severityStyle d.severity}]{d.severity.name}[/]", d.kind.name,
   match d.index with | some i => toString i | none => "", escapeMarkup d.message]

def diagnosticsTable (ds : List Diagnostic) : TextTable :=
  ⟨"Diagnostics", ["Severity", "Kind", "Index", "Message"], ds.map diagnosticRow⟩

def statusLine (r : RunResult) (title : String) : String :=
  let shown := escapeMarkup title
  if r.success then s!"[green]✓ {shown} completed[/] ({r.iterations} steps)"
  else s!"[red]✗ {shown} failed[/] ({r.iterations} steps)"

/-- A part that is shown only if there is something in it. -/
def partIf (present : Bool) (part : Except Fault Printed) : Except Fault (List Printed) :=
  if present then return [← part] else .ok []

def returnedLine (r : RunResult) : Except Fault Printed := do
  let shown ← r.context.heap.jsonOrDisplay nestingLimit r.returnValue
  return .line s!"[bold]Returned:[/] {escapeMarkup shown}"

/-- What is printed about a run. A fault comes with what was printed before it. -/
def report (r : RunResult) (title : String) : List Printed × Option Fault :=
  let parts :=
    [partIf (!r.context.results.isEmpty)
      (.table <$> resultsTable r.context.heap r.context.results.toList),
     partIf (!r.context.bindings.isEmpty)
      (.table <$> variablesTable r.context.heap r.context.bindings.entries),
     partIf r.context.returned.isSome (returnedLine r),
     partIf (!r.context.diagnostics.isEmpty)
      (.ok (.table (diagnosticsTable r.context.diagnostics.toList)))]
  collect [.line (statusLine r title)] parts
where
  collect (printed : List Printed) : List (Except Fault (List Printed)) →
      List Printed × Option Fault
    | [] => (printed, none)
    | .ok more :: rest => collect (printed ++ more) rest
    | .error f :: _ => (printed, some f)

/-- The outcome of a run as one tree. -/
def resultTree (r : RunResult) : Tree :=
  .object
    [("success", .bool r.success),
     ("results", .list (r.context.results.toList.map r.context.heap.entryTree)),
     ("variables", .object (r.context.bindings.entries.map fun (name, v) =>
       (name, r.context.heap.tree v))),
     ("return_value", r.context.heap.tree r.returnValue),
     ("has_returned", .bool r.context.returned.isSome), ("iterations", .int r.iterations),
     ("diagnostics", .list (r.context.diagnostics.toList.map Diagnostic.tree))]

end Display

end NodeScript
