import NodeScript.Context
import NodeScript.Schema.Field
import NodeScript.Text.Identifier

/-!
Leaf instructions work in two stages. Evaluation reads the variables and the heap, may make new
tables and may warn; it ends in a fault or in an effect. The effect says what changes: at most one
variable, at most one table, and what is written to the log.
-/

namespace NodeScript

/-- What an instruction reads of a run. -/
structure Scope where
  bindings : Dict String Value
  label : Option String

def Scope.get (s : Scope) (name : String) (absent : Value := .nil) : Value :=
  (s.bindings.get? name).getD absent

def Scope.has (s : Scope) (name : String) : Bool :=
  s.bindings.contains name

def Context.scope (c : Context) : Scope :=
  ⟨c.bindings, c.label⟩

/-- What evaluation may add to while it goes on. -/
structure Draft where
  heap : Heap
  /-- The levels of nesting that are free, which evaluation leaves as they are. -/
  room : Nat
  warnings : Array String := #[]

abbrev Eval := EStateM Fault Draft

namespace Eval

def lift {α : Type} (e : Except Fault α) : Eval α :=
  match e with
  | .ok a => pure a
  | .error f => throw f

def warn (message : String) : Eval Unit :=
  modify fun d => { d with warnings := d.warnings.push message }

/-- What is found out from the heap and the free levels of nesting. -/
def ask {α : Type} (f : Heap → (room : Nat) → Except Fault α) : Eval α := do
  let d ← get
  lift (f d.heap d.room)

def display (v : Value) : Eval String :=
  ask fun h room => h.display room v

def plain (v : Value) : Eval String :=
  ask fun h room => h.plain room v

def scriptText (v : Value) : Eval String :=
  ask fun h room => h.scriptText room v

def kindName (v : Value) : Eval String :=
  return (← get).heap.kindName v

def table? (v : Value) : Eval (Option (Address × Table)) := do
  match v with
  | .table a => return some (a, (← get).heap.get a)
  | _ => return none

def alloc (t : Table) : Eval Value := do
  let (a, heap) := (← get).heap.alloc t
  modify fun d => { d with heap }
  return .table a

/-- A number that is new, so that it is not the same as any other unless it equals it. -/
def newNumber (n : Number) : Eval Number := do
  let (n, heap) := (← get).heap.mark n
  modify fun d => { d with heap }
  return n

/-- The number that a value is or writes. -/
def toNumber? (v : Value) : Eval (Option Number) := do
  match v.toNumber? with
  | some n => return some (← newNumber n)
  | none => return none

/-- The literal that a text stands for; other values stand for themselves. -/
def literal (v : Value) : Eval Value := do
  let (v, heap) ← ask fun h room => h.literal room v
  modify fun d => { d with heap }
  return v

end Eval

/-- What a leaf instruction changes. -/
structure Effect where
  binding : Option (String × Value) := none
  /-- A table and what it contains from now on. -/
  write : Option (Address × Table) := none
  /-- An entry that the instruction writes to the log itself. -/
  entry : Option Record := none
  /-- The result, which the run writes to the log with the instruction's name. -/
  output : Option Record := none

/-- Brings the outcome of an evaluation into the run that it was made for. -/
def Context.adopt (c : Context) (d : Draft) : Context :=
  d.warnings.foldl (fun c w => c.warn w) { c with heap := d.heap }

def Context.commit (c : Context) (e : Effect) : Context :=
  let c := match e.binding with
    | some (name, v) => c.bind name v
    | none => c
  let c := match e.write with
    | some (a, t) => { c with heap := c.heap.set a t }
    | none => c
  match e.entry with
  | some r => c.addRecord r
  | none => c

def Exec.lift {α : Type} (e : Except Fault α) : Exec α :=
  match e with
  | .ok a => pure a
  | .error f => throw f

/-- Evaluates in the scope of a run. Warnings stay even if a fault follows them. -/
def Exec.evaluate {α : Type} (f : Scope → Eval α) : Exec α := fun c =>
  let heap := c.heap
  let c := { c with heap := {} }
  match f c.scope { heap, room := c.room } with
  | .ok a d => .ok a (c.adopt d)
  | .error e d => .error e (c.adopt d)

/-- The result of an instruction that refuses its input. -/
def errorRecord (scope : Scope) (action message : String) (extra : Record := []) : Record :=
  [("action", .text action), ("node", .textOrNil scope.label), ("status", .text "error"),
   ("message", .text message)] ++ extra

/-- An effect that only reports a refusal. -/
def Effect.refusal (scope : Scope) (action message : String) (extra : Record := []) : Effect :=
  { output := some (errorRecord scope action message extra) }

/-- The name of a variable in a message. -/
def nameText (name : Option String) : String :=
  name.getD "None"

/-- A name that scripts may use. -/
def validName? (name : Option String) : Option String :=
  name.filter Text.isScriptName

/-- A value that is a name which scripts may use. -/
def validNameOf? : Value → Option String
  | .text s => if Text.isScriptName s then some s else none
  | _ => none

/-- A name that is there and not empty. -/
def givenName? (name : Option String) : Option String :=
  name.filter (· != "")

/-- The name, or another one in place of the empty name. -/
def nameOr (name absent : String) : String :=
  if name = "" then absent else name

/-- Whether a configured value stands for itself or names a variable. -/
inductive SourceKind where
  | literal
  | variable
deriving DecidableEq, Repr

def SourceKind.options : List (String × SourceKind) :=
  [("literal", .literal), ("variable", .variable)]

/-- An argument: a literal or the name of a variable. -/
structure Source where
  kind : SourceKind := .literal
  value : Value := .nil
deriving DecidableEq, Repr

namespace Source

def check (h : Heap) (v : Value) : Checked Source :=
  match h.map? v with
  | none => .fail (.notModel "ValueSource")
  | some entries =>
    let fields := entries.fields
    Source.mk
      <$> Decoder.optional ⟨"type", "type"⟩ .literal (Check.choice SourceKind.options) fields
      <*> Decoder.optional ⟨"value", "value"⟩ .nil Check.any fields

def resolve (scope : Scope) (s : Source) : Eval Value :=
  match s.kind, s.value with
  | .variable, .text name => return scope.get name
  | .variable, v => do
    let kind ← Eval.kindName v
    Eval.warn s!"Expected a variable name for argument, got {kind}"
    return .nil
  | .literal, v => Eval.literal v

def resolveAll (scope : Scope) : List Source → Eval (List Value)
  | [] => return []
  | s :: rest => do
    let v ← s.resolve scope
    return v :: (← resolveAll scope rest)

end Source

/-- The variable if one is asked for and named, else the literal. -/
def readOperand (scope : Scope) (useVariable : Bool) (name : Option String) (given : Value)
    (absent : Value := .nil) : Eval Value :=
  match useVariable, givenName? name with
  | true, some name => return scope.get name absent
  | _, _ => Eval.literal given

namespace Decoder

def text (name : FieldName) (absent : String) : Decoder String :=
  optional name absent Check.text

def textOrNil (name : FieldName) : Decoder (Option String) :=
  optional name none (Check.orNil Check.text)

def any (name : FieldName) (absent : Value := .nil) : Decoder Value :=
  optional name absent Check.any

def flag (name : FieldName) (absent : Bool := false) : Decoder Bool :=
  optional name absent Check.flag

def sourceKind (name : FieldName) : Decoder SourceKind :=
  optional name .literal (Check.choice SourceKind.options)

def sources (h : Heap) (name : FieldName) : Decoder (List Source) :=
  optional name [] (Check.list h (Source.check h))

end Decoder

end NodeScript
