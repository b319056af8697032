import NodeScript.Dict
import NodeScript.Number.Basic

/-!
Values of scripts. Tables are shared: a value holds the address of a table, and the heap holds what
the table contains at present.
-/

namespace NodeScript

structure Vector3 where
  x : Number
  y : Number
  z : Number
deriving DecidableEq, Repr

/-- Keys of maps. Scripts make texts and numbers; all others come only from files. -/
inductive Key where
  | text (s : String)
  | number (n : Number)
  | bool (b : Bool)
  | moment (m : Moment)
  | nil
deriving DecidableEq, Repr

/-- The number a key counts as, truth values being zero and one. -/
def Key.number? : Key → Option Number
  | .number n => some n
  | .bool b => some (.int (if b then 1 else 0))
  | _ => none

/-- Keys that a map does not tell apart: `1` and `1.0` are one key, `"1"` is another. -/
def Key.same : Key → Key → Bool
  | .text s, .text t => s == t
  | .nil, .nil => true
  | .moment m, .moment n => m.same n
  | a, b =>
    match a.number?, b.number? with
    | some n, some m => n.alike m
    | _, _ => false

instance : BEq Key := ⟨Key.same⟩

abbrev Address := Nat

inductive Value where
  | nil
  | bool (b : Bool)
  | number (n : Number)
  | text (s : String)
  | vector (v : Vector3)
  | moment (m : Moment)
  | table (address : Address)
deriving DecidableEq, Repr

instance : Inhabited Value := ⟨.nil⟩

def Key.value : Key → Value
  | .text s => .text s
  | .number n => .number n
  | .bool b => .bool b
  | .moment m => .moment m
  | .nil => .nil

namespace Value

/-- The key that a value is; tables and vectors are none. -/
def key? : Value → Option Key
  | .nil => some .nil
  | .bool b => some (.bool b)
  | .number n => some (.number n)
  | .text s => some (.text s)
  | .moment m => some (.moment m)
  | .vector _ | .table _ => none

def int (n : Int) : Value := .number (.int n)

def float (x : Float) : Value := .number (.float x)

def ofOption : Option Value → Value
  | some v => v
  | none => .nil

end Value

/-- What a table contains: an array's items in order, or a map's entries. -/
inductive Table where
  | array (items : List Value)
  | map (entries : Dict Key Value)
deriving DecidableEq, Repr

instance : Inhabited Table := ⟨.array []⟩

/-- The tables made so far; a table's address is its place in the order of making. -/
structure Heap where
  tables : Array Table := #[]
  /-- The next mark for what is no number; those before it are given away. -/
  nextMark : Nat := 2
deriving Repr, DecidableEq

namespace Heap

def size (h : Heap) : Nat := h.tables.size

def get (h : Heap) (a : Address) : Table :=
  h.tables.getD a default

/-- Makes a table at a new address. -/
def alloc (h : Heap) (t : Table) : Address × Heap :=
  (h.tables.size, { h with tables := h.tables.push t })

/-- Replaces what a table contains. -/
def set (h : Heap) (a : Address) (t : Table) : Heap :=
  { h with tables := h.tables.setIfInBounds a t }

/-- Gives a number that needs one a mark of its own. -/
def mark (h : Heap) (n : Number) : Number × Heap :=
  if n.isUnmarked then (.nan h.nextMark, { h with nextMark := h.nextMark + 1 }) else (n, h)

def markVector (h : Heap) (v : Vector3) : Vector3 × Heap :=
  let (x, h) := h.mark v.x
  let (y, h) := h.mark v.y
  let (z, h) := h.mark v.z
  (⟨x, y, z⟩, h)

def markKey (h : Heap) : Key → Key × Heap
  | .number n =>
    let (n, h) := h.mark n
    (.number n, h)
  | k => (k, h)

def array? (h : Heap) : Value → Option (List Value)
  | .table a =>
    match h.get a with
    | .array items => some items
    | .map _ => none
  | _ => none

def map? (h : Heap) : Value → Option (Dict Key Value)
  | .table a =>
    match h.get a with
    | .array _ => none
    | .map entries => some entries
  | _ => none

end Heap

end NodeScript
