import NodeScript.Log
import NodeScript.Loop

/-!
The state of one run: its variables, log, diagnostics, return slot, break request and loops. The
heap and the notices are shared with the runs that it starts.
-/

namespace NodeScript

structure Context where
  heap : Heap := {}
  /-- All diagnostics reported so far, those of called graphs included. -/
  notices : Array Diagnostic := #[]
  /-- The variables with their values. -/
  bindings : Dict String Value := {}
  results : Array Entry := #[]
  diagnostics : Array Diagnostic := #[]
  /-- The return value, once one is set. -/
  returned : Option Value := none
  breakRequested : Bool := false
  loops : LoopStack := []
  /-- The index of the current instruction. -/
  position : Option Int := none
  label : Option String := none
  /-- The levels of nesting that calls have left free. -/
  room : Nat := nestingLimit

namespace Context

def report (d : Diagnostic) (c : Context) : Context :=
  { c with diagnostics := c.diagnostics.push d, notices := c.notices.push d }

def warning (c : Context) (message : String) : Diagnostic :=
  { kind := .warning, severity := .warning, message, index := c.position, label := c.label }

/-- Reports a warning about the current instruction. -/
def warn (message : String) (c : Context) : Context :=
  c.report (c.warning message)

def addEntry (e : Entry) (c : Context) : Context :=
  { c with results := c.results.push e }

def addRecord (r : Record) (c : Context) : Context :=
  c.addEntry (.record r)

/-- Adds a value of the host to the log; nil adds nothing. -/
def addValue (v : Value) (c : Context) : Context :=
  if v = .nil then c else c.addEntry (.value v)

def bind (name : String) (v : Value) (c : Context) : Context :=
  { c with bindings := c.bindings.insert name v }

def invalidName (shown : String) : String :=
  s!"Attempted to set variable with invalid name: {shown}"

/-- Sets a variable; the empty name is refused with a warning. -/
def setVariable (name : String) (v : Value) (c : Context) : Context :=
  if name = "" then c.warn (invalidName (Text.quoted name)) else c.bind name v

/-- Sets a variable whose name is any value of the host. -/
def setVariableNamed (name v : Value) (c : Context) : Except Fault (Bool × Context) :=
  match name with
  | .text s => .ok (s != "", c.setVariable s v)
  | _ => return (false, c.warn (invalidName (← c.heap.display c.room name)))

def getVariable (c : Context) (name : String) (absent : Value) : Value :=
  (c.bindings.get? name).getD absent

/-- Writes the return slot. The first write wins. -/
def setReturn (v : Value) (c : Context) : Bool × Context :=
  match c.returned with
  | some _ => (false, c.warn "Return value already set. Ignoring subsequent return.")
  | none => (true, { c with returned := some v })

def requestBreak (c : Context) : Context :=
  { c with breakRequested := true }

end Context

/-- Steps that change a context and may fail. What was changed before a failure stays changed. -/
abbrev Exec := EStateM Fault Context

/-- Runs a function graph for a call: its key and the arguments. -/
abbrev Caller := String → List Value → Exec Value

end NodeScript
