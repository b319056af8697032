import NodeScript.Yaml.Node

/-!
Reading documents into the heap. Each list or map becomes one table, whatever stands for it; what the
tables contain is read from the outermost on, level by level, and the first error ends the reading.
-/

namespace NodeScript.Yaml

/-- The entries of a map, those of maps that are merged into it first. A map that is merged into
itself adds nothing. -/
def mergedEntries (nodes : Array Node) : (fuel : Nat) → (within : List NodeId) → NodeId →
    Except ReadError (List (NodeId × NodeId))
  | 0, _, _ => .error .malformed
  | fuel + 1, within, id =>
    let isMerge (entry : NodeId × NodeId) : Bool :=
      match nodes.getD entry.1 default with
      | .scalar .merge _ => true
      | _ => false
    let entriesOf (v : NodeId) : Except ReadError (List (NodeId × NodeId)) :=
      if (id :: within).contains v then .ok [] else mergedEntries nodes fuel (id :: within) v
    match nodes.getD id default with
    | .map _ entries => do
      let merged ← (entries.filter isMerge).mapM fun (_, v) =>
        match nodes.getD v default with
        | .list _ items => return (← items.mapM entriesOf).reverse.flatten
        | _ => entriesOf v
      return merged.flatten ++ entries.filter (!isMerge ·)
    | _ => .error .malformed
termination_by structural fuel => fuel

/-- The tables made so far. -/
structure Builder where
  heap : Heap
  /-- The table of each node that has one. -/
  made : Array (Option Address)
  /-- Nodes whose tables have no content yet, the last one first. -/
  pending : List NodeId := []

/-- Steps that build nodes up in the heap. -/
abbrev Build := EStateM ReadError Builder

namespace Build

def lift {α : Type} (e : Except ReadError α) : Build α :=
  match e with
  | .ok a => pure a
  | .error e => throw e

/-- The table of a node, which is made when it is asked for first. -/
def table (id : NodeId) : Build Value := do
  let b ← get
  match b.made.getD id none with
  | some a => return .table a
  | none =>
    let (a, heap) := b.heap.reserve
    set { b with heap, made := b.made.setIfInBounds id (some a), pending := id :: b.pending }
    return .table a

def value (nodes : Array Node) (id : NodeId) : Build Value :=
  match nodes.getD id default with
  | .scalar tag text => lift (scalarValue tag text)
  | .list tag _ => if tag = .list then table id else throw .malformed
  | .map tag _ => if tag = .map then table id else throw .malformed

/-- Only scalars can be keys. -/
def key (nodes : Array Node) (id : NodeId) : Build Key := do
  match nodes.getD id default with
  | .scalar .default text => return .text text
  | .scalar tag text =>
    match (← lift (scalarValue tag text)).key? with
    | some k => return k
    | none => throw .malformed
  | _ => throw .malformed

/-- What the table of a node contains. -/
def content (nodes : Array Node) (id : NodeId) : Build Table := do
  match nodes.getD id default with
  | .list _ items => return .array (← items.mapM (value nodes))
  | .map .. =>
    let entries ← lift (mergedEntries nodes (nodes.size + 1) [] id)
    let pairs ← entries.mapM fun (k, v) => do return (← key nodes k, ← value nodes v)
    return .map (.ofList pairs)
  | .scalar .. => throw .malformed

def fill (nodes : Array Node) (id : NodeId) : Build Unit := do
  match ← table id with
  | .table a =>
    let t ← content nodes id
    modify fun b => { b with heap := b.heap.set a t }
  | _ => return

/-- Fills the tables without content, then those that this brought up, and so on. -/
def levels (nodes : Array Node) : (fuel : Nat) → Build Unit
  | 0 => return
  | fuel + 1 => do
    let ids := (← get).pending.reverse
    if ids.isEmpty then return
    modify fun b => { b with pending := [] }
    ids.forM (fill nodes)
    levels nodes fuel

/-- The value of a node. No node is filled twice, so there are no more levels than nodes. -/
def all (nodes : Array Node) (id : NodeId) : Build Value := do
  let v ← value nodes id
  levels nodes (nodes.size + 1)
  return v

end Build

/-- All kinds of line breaks become one. -/
def unifyBreaks : List Char → List Char
  | [] => []
  | '\r' :: '\n' :: cs => '\n' :: unifyBreaks cs
  | c :: cs => (if c == '\r' then '\n' else c) :: unifyBreaks cs
termination_by structural cs => cs

/-- Reads a text that holds one document. An empty document is nil. -/
def load (h : Heap) (text : String) : Except ReadError (Value × Heap) :=
  match Compose.document { tokens := tokens (unifyBreaks text.toList) } with
  | .error e _ => .error e
  | .ok none _ => .ok (.nil, h)
  | .ok (some id) s =>
    match Build.all s.nodes id { heap := h, made := Array.replicate s.nodes.size none } with
    | .error e _ => .error e
    | .ok v b => .ok (v, b.heap)

end NodeScript.Yaml
