/-! Dictionaries that keep the order in which their keys were first inserted. -/

namespace NodeScript

/-- Entries in insertion order, at most one for each key. -/
structure Dict (κ : Type) (α : Type) where
  entries : List (κ × α) := []
deriving Repr, DecidableEq

namespace Dict

variable {κ α : Type} [BEq κ]

instance : Inhabited (Dict κ α) := ⟨{}⟩

def isEmpty (d : Dict κ α) : Bool := d.entries.isEmpty

def size (d : Dict κ α) : Nat := d.entries.length

def keys (d : Dict κ α) : List κ := d.entries.map Prod.fst

def get? (d : Dict κ α) (k : κ) : Option α :=
  (d.entries.find? (·.1 == k)).map Prod.snd

def contains (d : Dict κ α) (k : κ) : Bool :=
  d.entries.any (·.1 == k)

def put (k : κ) (v : α) : List (κ × α) → List (κ × α)
  | [] => [(k, v)]
  | (j, w) :: rest => if j == k then (j, v) :: rest else (j, w) :: put k v rest

/-- A key that is already there keeps its place and its spelling and takes the new value; any other
key goes to the end. -/
def insert (d : Dict κ α) (k : κ) (v : α) : Dict κ α :=
  ⟨put k v d.entries⟩

/-- Inserts the pairs one after the other, so that the last value of a key wins. -/
def insertAll (d : Dict κ α) (pairs : List (κ × α)) : Dict κ α :=
  pairs.foldl (fun d (k, v) => d.insert k v) d

def ofList (pairs : List (κ × α)) : Dict κ α :=
  insertAll {} pairs

def filter (d : Dict κ α) (keep : κ → Bool) : Dict κ α :=
  ⟨d.entries.filter (keep ·.1)⟩

end Dict

end NodeScript
