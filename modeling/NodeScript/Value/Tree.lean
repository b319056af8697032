import NodeScript.Value.Basic

/-!
Trees: finite pictures of values. Serial forms are read into trees and written from trees; the heap
is unfolded into a tree and a tree is built up in the heap. A table inside itself is shown by how
many tables up it lies.
-/

namespace NodeScript

inductive Tree where
  | nil
  | bool (b : Bool)
  | number (n : Number)
  | text (s : String)
  | vector (v : Vector3)
  | moment (m : Moment)
  | list (items : List Tree)
  | map (entries : List (Key × Tree))
  /-- The table `up` levels out, one being the table that directly contains this leaf. -/
  | again (isMap : Bool) (up : Nat)
deriving Repr

instance : Inhabited Tree := ⟨.nil⟩

namespace Tree

def int (n : Int) : Tree := .number (.int n)

/-- A map with text keys. -/
def object (fields : List (String × Tree)) : Tree :=
  .map (fields.map fun (k, t) => (.text k, t))

/-- The entry of a map under a text key. -/
def field? : Tree → String → Option Tree
  | .map entries, k => (entries.find? (·.1 == Key.text k)).map Prod.snd
  | _, _ => none

end Tree

namespace Heap

/-- Unfolds a value below the tables on `path`, the innermost first. -/
def unfold (h : Heap) : (depth : Nat) → (path : List Address) → Value → Tree
  | _, _, .nil => .nil
  | _, _, .bool b => .bool b
  | _, _, .number n => .number n
  | _, _, .text s => .text s
  | _, _, .vector v => .vector v
  | _, _, .moment m => .moment m
  | 0, _, .table _ => .nil
  | depth + 1, path, .table a =>
    match path.findIdx? (· == a), h.get a with
    | some i, .array _ => .again false (i + 1)
    | some i, .map _ => .again true (i + 1)
    | none, .array items => .list (items.map (h.unfold depth (a :: path)))
    | none, .map entries =>
      .map (entries.entries.map fun (k, v) => (k, h.unfold depth (a :: path) v))

/-- The tree of a value. No path meets more tables than there are, so the depth suffices. -/
def tree (h : Heap) (v : Value) : Tree :=
  h.unfold (h.size + 1) [] v

/-- Makes room for a table whose content follows. -/
def reserve (h : Heap) : Address × Heap :=
  h.alloc (.array [])

mutual

/-- Builds a tree up in the heap below the tables on `path`. -/
def build : Tree → (path : List Address) → Heap → Value × Heap
  | .nil, _, h => (.nil, h)
  | .bool b, _, h => (.bool b, h)
  | .number n, _, h =>
    let (n, h) := h.mark n
    (.number n, h)
  | .text s, _, h => (.text s, h)
  | .vector v, _, h =>
    let (v, h) := h.markVector v
    (.vector v, h)
  | .moment m, _, h => (.moment m, h)
  | .list items, path, h =>
    let (a, h) := h.reserve
    let (values, h) := buildList items (a :: path) h
    (.table a, h.set a (.array values))
  | .map entries, path, h =>
    let (a, h) := h.reserve
    let (pairs, h) := buildEntries entries (a :: path) h
    (.table a, h.set a (.map (Dict.ofList pairs)))
  | .again _ up, path, h =>
    match path[up - 1]? with
    | some a => (.table a, h)
    | none => (.nil, h)
termination_by structural t => t

def buildList : List Tree → (path : List Address) → Heap → List Value × Heap
  | [], _, h => ([], h)
  | t :: ts, path, h =>
    let (v, h) := build t path h
    let (vs, h) := buildList ts path h
    (v :: vs, h)
termination_by structural ts => ts

def buildEntries : List (Key × Tree) → (path : List Address) → Heap → List (Key × Value) × Heap
  | [], _, h => ([], h)
  | (k, t) :: es, path, h =>
    let (k, h) := h.markKey k
    let (v, h) := build t path h
    let (ps, h) := buildEntries es path h
    ((k, v) :: ps, h)
termination_by structural es => es

end

/-- Builds a tree up in the heap, every list and map as a new table. -/
def store (h : Heap) (t : Tree) : Value × Heap :=
  build t [] h

end Heap

end NodeScript
