import NodeScript.Value.Compare

/-!
Loops in progress. Each active loop has one frame on a stack, which holds what the end of the loop
needs in order to go on: the cursor of a numeric loop, or what is left of a collection.
-/

namespace NodeScript

/-- What a generic loop visits: all entries, or the items in order. -/
inductive Iteration where
  | pairs
  | ipairs
deriving DecidableEq, Repr

namespace Iteration

def name : Iteration → String
  | .pairs => "pairs"
  | .ipairs => "ipairs"

def options : List (String × Iteration) :=
  [("pairs", .pairs), ("ipairs", .ipairs)]

end Iteration

/-- The items that an ordered loop reads: those of a table as it is at that time, or fixed ones. -/
inductive ItemSource where
  | table (address : Address)
  | fixed (items : List Value)
deriving DecidableEq, Repr

def ItemSource.items (h : Heap) : ItemSource → List Value
  | .table a => (h.array? (.table a)).getD []
  | .fixed items => items

/-- A loop that counts. -/
structure NumericLoop where
  controlVariable : String
  current : Number
  limit : Number
  step : Number
deriving DecidableEq, Repr

namespace NumericLoop

/-- Whether the cursor has not passed the limit in the direction of the step. -/
def inRange (l : NumericLoop) : Bool :=
  if (Number.int 0).lt l.step then l.current.le l.limit else l.limit.le l.current

/-- Moves the cursor by one step. -/
def advance (l : NumericLoop) : Except Fault NumericLoop :=
  return { l with current := ← l.current.add l.step }

end NumericLoop

/-- A loop over a table. -/
structure GenericLoop where
  iteration : Iteration
  keyVariable : String
  valueVariable : String
  source : Option ItemSource := none
  /-- The entries still to come of a loop over all entries. -/
  pending : Option (List (Value × Value)) := none
  index : Int := 0
  exhausted : Bool := false
deriving DecidableEq, Repr

namespace GenericLoop

/-- The item at an index, which counts from the end if it is negative. -/
def itemAt (items : List Value) (index : Int) : Except Fault Value :=
  let place := if index < 0 then index + items.length else index
  if place < 0 then .error .indexOutOfRange
  else
    match items[place.toNat]? with
    | some v => .ok v
    | none => .error .indexOutOfRange

/-- The next key and value, or none once there are no more, and the loop after that. Keys of ordered
loops count from one. -/
def advance (h : Heap) (l : GenericLoop) :
    Except Fault (Option (Value × Value)) × GenericLoop :=
  if l.exhausted then (.ok none, l)
  else
    match l.iteration, l.source with
    | .ipairs, some source =>
      let items := source.items h
      let index := l.index + 1
      if index < items.length then
        ((itemAt items index).map fun v => some (.int (index + 1), v), { l with index })
      else (.ok none, { l with index, exhausted := true })
    | _, _ =>
      match l.pending with
      | some (entry :: rest) => (.ok (some entry), { l with pending := some rest })
      | _ => (.ok none, { l with exhausted := true })

end GenericLoop

inductive LoopState where
  | whileLoop
  | numeric (loop : NumericLoop)
  | generic (loop : GenericLoop)
deriving DecidableEq, Repr

/-- The kinds of loop, by which ends find their frame. -/
inductive LoopKind where
  | whileLoop
  | numeric
  | generic
deriving DecidableEq, Repr

def LoopKind.name : LoopKind → String
  | .whileLoop => "while"
  | .numeric => "forNumeric"
  | .generic => "forGeneric"

def LoopState.kind : LoopState → LoopKind
  | .whileLoop => .whileLoop
  | .numeric _ => .numeric
  | .generic _ => .generic

/-- A loop in progress, from the index of its header to that of its end. -/
structure LoopFrame where
  start : Int
  finish : Int
  state : LoopState
deriving DecidableEq, Repr

namespace LoopFrame

/-- Where a loop that tests its condition again goes on. -/
def headerIndex (f : LoopFrame) : Nat := f.start.toNat

/-- Where the next round of a loop starts. -/
def bodyIndex (f : LoopFrame) : Nat := f.start.toNat + 1

/-- Where control goes after the loop. -/
def exitIndex (f : LoopFrame) : Nat := f.finish.toNat + 1

end LoopFrame

/-- The loops in progress, innermost first. -/
abbrev LoopStack := List LoopFrame

namespace LoopStack

/-- A header that is visited again keeps the frame it has on top. -/
def pushIfNew (stack : LoopStack) (frame : LoopFrame) : Bool × LoopStack :=
  match stack with
  | top :: _ => if top.start = frame.start then (false, stack) else (true, frame :: stack)
  | [] => (true, [frame])

/-- Removes the top frame if it was opened by the header at `start`. -/
def popIfStart (stack : LoopStack) (start : Int) : Option LoopFrame × LoopStack :=
  match stack with
  | top :: rest => if top.start = start then (some top, rest) else (none, stack)
  | [] => (none, [])

/-- The top frame, which must be of the given kind. -/
def expect (stack : LoopStack) (kind : LoopKind) (index : Int) (terminator : String) :
    Except StructuralError LoopFrame :=
  match stack with
  | [] => .error (.noActiveLoop terminator index)
  | top :: _ =>
    if top.state.kind = kind then .ok top
    else .error (.wrongLoop terminator index kind.name top.state.kind.name)

/-- All frames in the order of their opening. -/
def describe (stack : LoopStack) : String :=
  ", ".intercalate (stack.reverse.map fun f => s!"{f.state.kind.name} started at index {f.start}")

end LoopStack

end NodeScript
