import NodeScript.Diagnostic
import NodeScript.Value.Printer

/-! The result log: records with named fields, kept in the order of writing. -/

namespace NodeScript

/-- What a field of a record holds. -/
inductive Field where
  | value (v : Value)
  | list (vs : List Value)
  | map (entries : List (String × Value))
  | record (fields : List (String × Field))
  | diagnostics (ds : List Diagnostic)
deriving Repr

abbrev Record := List (String × Field)

namespace Field

def text (s : String) : Field := .value (.text s)

def textOrNil : Option String → Field
  | some s => text s
  | none => .value .nil

def bool (b : Bool) : Field := .value (.bool b)

def number (n : Number) : Field := .value (.number n)

def int (n : Int) : Field := .value (.int n)

end Field

/-- What the log holds: records of the engine, and values that a host adds. -/
inductive Entry where
  | record (r : Record)
  | value (v : Value)
deriving Repr

def Tree.textOrNil : Option String → Tree
  | some s => .text s
  | none => .nil

def Diagnostic.tree (d : Diagnostic) : Tree :=
  .object
    [("kind", .text d.kind.name), ("severity", .text d.severity.name), ("message", .text d.message),
     ("index", match d.index with | some i => .int i | none => .nil),
     ("label", .textOrNil d.label)]

namespace Heap

mutual

def fieldTree (h : Heap) : Field → Tree
  | .value v => h.tree v
  | .list vs => .list (vs.map h.tree)
  | .map entries => .object (entries.map fun (k, v) => (k, h.tree v))
  | .record fields => .map (h.fieldTrees fields)
  | .diagnostics ds => .list (ds.map Diagnostic.tree)
termination_by structural f => f

def fieldTrees (h : Heap) : List (String × Field) → List (Key × Tree)
  | [] => []
  | (name, f) :: fs => (.text name, h.fieldTree f) :: h.fieldTrees fs
termination_by structural fs => fs

end

def entryTree (h : Heap) : Entry → Tree
  | .record r => h.fieldTree (.record r)
  | .value v => h.tree v

end Heap

end NodeScript
