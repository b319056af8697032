import NodeScript.Schema.Problem
import NodeScript.Value.Compare

/-! Checks on single values, and fields looked up by name. -/

namespace NodeScript

/-- Looks a field up by its name. -/
abbrev Fields := String → Option Value

def Dict.fields (d : Dict Key Value) : Fields :=
  fun name => d.get? (.text name)

/-- Editors write the first name; the second is accepted where the first is absent. -/
structure FieldName where
  editor : String
  plain : String

/-- Makes a value from the fields of a map. -/
def Decoder (α : Type) := Fields → Checked α

namespace Decoder

instance : Applicative Decoder where
  pure a := fun _ => pure a
  map f d := fun fields => (d fields).map f
  seq f d := fun fields => (f fields).seq (d () fields)

/-- The name under which a field is present, and its value. -/
def find? (name : FieldName) (fields : Fields) : Option (String × Value) :=
  match fields name.editor with
  | some v => some (name.editor, v)
  | none => (fields name.plain).map fun v => (name.plain, v)

/-- A field that may be absent. -/
def optional {α : Type} (name : FieldName) (absent : α) (check : Value → Checked α) : Decoder α :=
  fun fields =>
    match find? name fields with
    | some (used, v) => (check v).within used
    | none => .valid absent

def required {α : Type} (name : FieldName) (check : Value → Checked α) : Decoder α :=
  fun fields =>
    match find? name fields with
    | some (used, v) => (check v).within used
    | none => (Checked.fail .missing).within name.editor

end Decoder

namespace Check

def any (v : Value) : Checked Value := .valid v

def text : Value → Checked String
  | .text s => .valid s
  | _ => .fail .notText

/-- Nil stands for no value. -/
def orNil {α : Type} (check : Value → Checked α) : Value → Checked (Option α)
  | .nil => .valid none
  | v => (check v).map some

/-- What is wrong with a value that is not among those expected. -/
def unexpected (kind : ProblemKind) : Value → ProblemKind
  | .text s => if Text.hasHalf s then .halfText else kind
  | _ => kind

/-- One of some texts, each with what it means. -/
def choice {α : Type} (options : List (String × α)) (v : Value) : Checked α :=
  let found? :=
    match v with
    | .text s => (options.find? (·.1 == s)).map Prod.snd
    | _ => none
  match found? with
  | some a => .valid a
  | none => .fail (unexpected (.notChoice (options.map Prod.fst)) v)

def list {α : Type} (h : Heap) (check : Value → Checked α) (v : Value) : Checked (List α) :=
  match h.array? v with
  | some items =>
    .sequence ((items.zipIdx).map fun (item, i) => (check item).within (toString i))
  | none => .fail .notList

def flagOfInt (n : Int) : Checked Bool :=
  if n = 0 then .valid false
  else if n = 1 then .valid true
  else .fail .unclearFlag

/-- Integers of sixty-four bits, with a sign. -/
def isWord (n : Int) : Bool :=
  -(twoPow 63) ≤ n && n < twoPow 63

/-- Whole doubles that count as integers lie strictly between the bounds of sixty-four bits. -/
def isInnerWord (n : Int) : Bool :=
  -(twoPow 63) < n && n < twoPow 63

def flagWords : List (String × Bool) :=
  [("0", false), ("off", false), ("f", false), ("false", false), ("n", false), ("no", false),
   ("1", true), ("on", true), ("t", true), ("true", true), ("y", true), ("yes", true)]

/-- A truth value, or a number or a word that stands for one. -/
def flag : Value → Checked Bool
  | .bool b => .valid b
  | .number (.int n) => if isWord n then flagOfInt n else .fail .notFlag
  | .number (.float x) =>
    match (Number.float x).whole? with
    | some n => if isInnerWord n then flagOfInt n else .fail .notFlag
    | none => .fail .notFlag
  | .text s =>
    match flagWords.find? (·.1 == String.ofList (Text.lowerChars s.toList)) with
    | some (_, b) => .valid b
    | none => .fail (unexpected .unclearFlag (.text s))
  | _ => .fail .notFlag

end Check

end NodeScript
