import NodeScript.Command.Arguments
import NodeScript.Display
import NodeScript.Store
import NodeScript.Workspace

/-!
The commands: what each of them prints, and what it changes. Files are those of a workspace, so that
a command is a function from one workspace to another.
-/

namespace NodeScript

/-- What `run` is asked for. -/
structure RunOptions where
  file : String
  graph : Option String := none
  arguments : List String := []
  maxIterations : Option Int := none
  asJson : Bool := false
deriving DecidableEq, Repr

/-- The settings that go before those of a file. -/
def RunOptions.overrides (o : RunOptions) : List (Key × Tree) :=
  match o.maxIterations with
  | some n => [(.text "max_iterations", .int n)]
  | none => []

inductive Command where
  | init
  | run (options : RunOptions)
  | validate (file : String)
  | show (file : String) (graph : Option String)
  | handlers
deriving DecidableEq, Repr

namespace Command

open Text

def runOptions : List OptionSpec :=
  [{ long := "graph", short := some 'g' }, { long := "arg", short := some 'a' },
   { long := "max-iterations" }, { long := "json", takesValue := false },
   { long := "verbose", short := some 'v', takesValue := false }]

def showOptions : List OptionSpec :=
  [{ long := "graph", short := some 'g' }]

/-- The integer in an option. -/
def integer? (s : String) : Option Int :=
  (Number.readInt 10 (trimChars s.toList)).toOption

def existing? (w : Workspace) : List String → Option String
  | [file] => if w.hasPath file then some file else none
  | _ => none

def parseRun (w : Workspace) (args : List String) : Option Command := do
  let p ← parseArguments runOptions args
  let file ← existing? w p.positional
  let maxIterations ←
    match p.value? "max-iterations" with
    | none => some none
    | some s => (integer? s).map some
  return .run
    { file, graph := p.value? "graph", arguments := p.values "arg", maxIterations
      asJson := (p.value? "json").isSome }

/-- A command without arguments. -/
def parseNone (command : Command) (args : List String) : Option Command := do
  let p ← parseArguments [] args
  if p.positional.isEmpty then some command else none

/-- The command of a name with the arguments after it; none if they are not understood. -/
def parseNamed (w : Workspace) : (name : String) → (args : List String) → Option Command
  | "init", args => parseNone .init args
  | "handlers", args => parseNone .handlers args
  | "run", args => parseRun w args
  | "validate", args => do
    let p ← parseArguments [] args
    return .validate (← existing? w p.positional)
  | "show", args => do
    let p ← parseArguments showOptions args
    return .show (← existing? w p.positional) (p.value? "graph")
  | _, _ => none

/-- The command that arguments ask for; none if they are not understood. -/
def parse (w : Workspace) : List String → Option Command
  | "--" :: name :: args => parseNamed w name args
  | name :: args => parseNamed w name args
  | [] => none

/-- What a command does: what it prints, its exit code, and the workspace after it. -/
structure Outcome where
  exit : Nat
  printed : List Printed := []
  /-- What is written to standard output as it is. -/
  output : String := ""
  /-- A fault that ended the command. -/
  fault : Option Fault := none
  workspace : Workspace

/-- Arguments that are not understood. -/
def usageError : Nat := 2

def defaultSettings : String :=
  "\n".intercalate
    ["# ScriptGraph engine configuration",
     "engine:",
     "  # Dispatch cycles per run before reporting a possible infinite loop",
     "  max_iterations: 10000",
     "  # Maximum nesting of function graph calls",
     "  max_call_depth: 64",
     "  # Key prefix of function graphs in a graph store",
     "  function_prefix: \"func:\"",
     "  # Warn when an instruction type has no registered handler",
     "  warn_unknown_types: true",
     ""]

/-- Writes a settings file unless there is one. -/
def runInit (w : Workspace) : Outcome :=
  if w.hasPath Location.settingsPath then
    { exit := 0, printed := [.line "[yellow]Project already initialized[/yellow]"], workspace := w }
  else
    { exit := 0
      printed := [.line s!"[green]Created {Location.settingsPath}[/green]"]
      workspace := w.write Location.settingsPath defaultSettings }

def fails (w : Workspace) (printed : List Printed) : Outcome :=
  { exit := 1, printed, workspace := w }

def crashes (w : Workspace) (f : Fault) (printed : List Printed := []) : Outcome :=
  { exit := 1, printed, fault := some f, workspace := w }

/-- A store from a file, or how the command ends without one. -/
def loadStore (w : Workspace) (file : String) (functionPrefix : String := defaultFunctionPrefix) :
    Except Outcome (Store × Heap) :=
  let loaded : Except StoreError (Store × Heap) :=
    match w.entry? (normalPath file) with
    | none => .error (.missingFile (normalPath file))
    | some .directory => .error (.isDirectory (normalPath file))
    | some (.file text) => Store.ofText {} (normalPath file) text functionPrefix
  match loaded with
  | .ok s => .ok s
  | .error (.fault f) => .error (crashes w f)
  | .error e =>
    .error (fails w
      [.line s!"[red]Error loading '{escapeMarkup file}':[/red]",
       .line s!"  {escapeMarkup e.message}"])

def notFound (key : String) : Printed :=
  .line s!"[red]Graph '{escapeMarkup key}' not found[/red]"

/-- The graph that is run if none is asked for. -/
def mainKey : String := "main"

def noChoice (s : Store) : List Printed :=
  let available := escapeMarkup (", ".intercalate s.keys)
  .line "[red]Cannot choose a graph to run; pass --graph KEY[/red]" ::
    if s.keys.isEmpty then [] else [.line s!"  Available: {available}"]

/-- The graph to run: the one asked for, else the main one, else the only script. -/
def selectGraph (s : Store) : (asked : Option String) → Except (List Printed) (String × Graph)
  | some key =>
    match s.get? key with
    | some g => .ok (key, g)
    | none => .error [notFound key]
  | none =>
    match s.get? mainKey, s.graphs.entries.filter (!·.2.isCallable) with
    | some g, _ => .ok (mainKey, g)
    | none, [only] => .ok only
    | none, _ => .error (noChoice s)

/-- Literals, one after the other, with the tables they make. -/
def literals : List String → Heap → Except Fault (List Value × Heap)
  | [], h => .ok ([], h)
  | s :: rest, h => do
    let (v, h) ← h.literal nestingLimit (.text s)
    let (vs, h) ← literals rest h
    return (v :: vs, h)

/-- Shows the outcome of a run, as text or in serial form. -/
def showRun (w : Workspace) (r : RunResult) (key : String) (asJson : Bool) : Outcome :=
  let exit := if r.success then 0 else 1
  if asJson then
    match (Display.resultTree r).jsonLines 0 nestingLimit with
    | .ok text => { exit, output := text ++ "\n", workspace := w }
    | .error f => crashes w f
  else
    match Display.report r key with
    | (printed, none) => { exit, printed, workspace := w }
    | (printed, some f) => crashes w f printed

def runGraph (w : Workspace) (o : RunOptions) (settings : Settings) (s : Store) (h : Heap) :
    Outcome :=
  match selectGraph s o.graph with
  | .error printed => fails w printed
  | .ok (key, g) =>
    match literals o.arguments h with
    | .error f => crashes w f
    | .ok (args, h) =>
      showRun w ((s.library settings).runGraph g args h #[]) key o.asJson

def runRun (w : Workspace) (o : RunOptions) : Outcome :=
  match Settings.load w Location.defaults o.overrides with
  | .error (.fault f) => crashes w f
  | .error e =>
    fails w [.line s!"[red]Configuration error:[/red] {escapeMarkup e.message}"]
  | .ok settings =>
    match loadStore w o.file settings.functionPrefix with
    | .error outcome => outcome
    | .ok (s, h) => runGraph w o settings s h

def bullet (color text : String) : Printed :=
  .line s!"  [{color}]• {escapeMarkup text}[/]"

def runValidate (w : Workspace) (file : String) : Outcome :=
  match loadStore w file with
  | .error outcome => outcome
  | .ok (s, _) =>
    let warnings := s.warnings.map (bullet "yellow")
    let errors := s.errors.map (bullet "red")
    if errors.isEmpty then
      { exit := 0, printed := warnings ++ [.line s!"[green]✓ {s.size} graph(s) valid[/]"]
        workspace := w }
    else fails w (warnings ++ .line "[red]Validation errors:[/red]" :: errors)

/-- The outline and the problems of each graph. A fault comes with what was printed before it. -/
def showGraphs (h : Heap) : List (String × Graph) → List Printed × Option Fault
  | [] => ([], none)
  | (key, g) :: rest =>
    match Display.outline h g key with
    | .error f => ([], some f)
    | .ok o =>
      let (more, fault) := showGraphs h rest
      (.outline o :: g.problems.map (bullet "red") ++ .line "" :: more, fault)

def runShow (w : Workspace) (file : String) (graph : Option String) : Outcome :=
  match loadStore w file with
  | .error outcome => outcome
  | .ok (s, h) =>
    let shown (graphs : List (String × Graph)) : Outcome :=
      match showGraphs h graphs with
      | (printed, none) => { exit := 0, printed, workspace := w }
      | (printed, some f) => crashes w f printed
    match graph with
    | none => shown s.graphs.entries
    | some key =>
      match s.get? key with
      | some g => shown [(key, g)]
      | none => fails w [notFound key]

/-- The table of all instructions that have a handler. -/
def handlersTable : TextTable where
  title := "Instruction Handlers"
  columns := ["Type", "Config", "Description"]
  rows := HandlerKind.tags.filterMap fun tag =>
    (HandlerKind.ofTag? tag).map fun kind => [tag, kind.configName, kind.description]

def execute (w : Workspace) : Command → Outcome
  | .init => runInit w
  | .run options => runRun w options
  | .validate file => runValidate w file
  | .show file graph => runShow w file graph
  | .handlers => { exit := 0, printed := [.table handlersTable], workspace := w }

/-- Carries out the command that arguments ask for. -/
def perform (w : Workspace) (args : List String) : Outcome :=
  match parse w args with
  | some command => command.execute w
  | none => { exit := usageError, workspace := w }

end Command

end NodeScript
