/-! Diagnostics: the warnings and errors that a run reports. -/

namespace NodeScript

inductive Severity where
  | warning
  | error
deriving DecidableEq, Repr

def Severity.name : Severity → String
  | .warning => "warning"
  | .error => "error"

inductive DiagnosticKind where
  | structural
  | handlerFault
  | resource
  | cancelled
  | warning
deriving DecidableEq, Repr

def DiagnosticKind.name : DiagnosticKind → String
  | .structural => "structural"
  | .handlerFault => "handler_fault"
  | .resource => "resource"
  | .cancelled => "cancelled"
  | .warning => "warning"

structure Diagnostic where
  kind : DiagnosticKind
  severity : Severity
  message : String
  index : Option Int := none
  label : Option String := none
deriving DecidableEq, Repr

namespace Diagnostic

/-- A name that is none of a fixed set. -/
inductive NameError where
  | kind (name : String)
  | severity (name : String)
deriving DecidableEq, Repr

def NameError.message : NameError → String
  | .kind name => s!"'{name}' is not a valid DiagnosticKind"
  | .severity name => s!"'{name}' is not a valid Severity"

def kinds : List DiagnosticKind :=
  [.structural, .handlerFault, .resource, .cancelled, .warning]

def severities : List Severity :=
  [.warning, .error]

/-- A diagnostic from the names of its kind and severity. -/
def ofNames (kind severity message : String) (index : Option Int) (label : Option String) :
    Except NameError Diagnostic :=
  match kinds.find? (·.name == kind), severities.find? (·.name == severity) with
  | none, _ => .error (.kind kind)
  | _, none => .error (.severity severity)
  | some k, some s => .ok ⟨k, s, message, index, label⟩

def isError (d : Diagnostic) : Bool :=
  d.severity = .error

/-- The diagnostic as one line. -/
def line (d : Diagnostic) : String :=
  let place :=
    match d.index with
    | some index => s!" (index {index})"
    | none => ""
  s!"[{d.severity.name}] {d.message}{place}"

end Diagnostic

end NodeScript
