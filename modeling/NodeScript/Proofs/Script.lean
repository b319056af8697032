import NodeScript.Proofs.Nesting
import NodeScript.Proofs.Steps

/-!
Scripts as trees, and what they mean. A tree is interpreted by recursion on its blocks, with the
handlers of the machine but without its program counter, its stack of loops or its scans. The marks
of a flattened tree are nested.
-/

namespace NodeScript

/-- An instruction with a given mark. -/
abbrev Marked (m : Mark) := { i : Instruction // i.control = m }

/-- A script as a tree of blocks. Instructions that are no part of a block are plain: leaves, calls,
returns and breaks. -/
inductive Script where
  | done
  | act (i : Instruction) (hi : Block.isPlain i.control = true) (rest : Script)
  | branch (header : Marked (some .branch)) (body : Script) (finish : Marked (some .endBranch))
      (rest : Script)
  | choice (header : Marked (some .branch)) (body : Script) (middle : Marked (some .otherwise))
      (other : Script) (finish : Marked (some .endBranch)) (rest : Script)
  | loop (kind : LoopKind) (header : Marked (some kind.block.opener)) (body : Script)
      (finish : Marked (some kind.block.terminator)) (rest : Script)

/-- The instructions of a script in the order of the text. -/
def Script.flatten : Script → List Instruction
  | .done => []
  | .act i _ rest => i :: rest.flatten
  | .branch header body finish rest =>
    header.val :: (body.flatten ++ finish.val :: rest.flatten)
  | .choice header body middle other finish rest =>
    header.val :: (body.flatten ++ middle.val :: (other.flatten ++ finish.val :: rest.flatten))
  | .loop _ header body finish rest =>
    header.val :: (body.flatten ++ finish.val :: rest.flatten)

def Script.size (script : Script) : Nat := script.flatten.length

/-- The state of an interpretation. -/
structure Walk where
  context : Context
  /-- Indices whose unknown type has been reported. -/
  reported : List Nat := []

/-- How a part of a script ends. -/
inductive Signal where
  | onward
  /-- A break looks for the loop that it leaves. -/
  | broke
  /-- A function returns. -/
  | returned
  | failed
deriving DecidableEq, Repr

/-- A script that breaks outside of all loops has failed. -/
def Signal.succeeds : Signal → Bool
  | .onward | .returned => true
  | .broke | .failed => false

/-- Whether a loop goes on. -/
inductive Round where
  | again (state : LoopState)
  | ended
  | failed

/-- What an interpretation goes by. -/
structure Host where
  settings : Settings
  /-- Whether a return ends the script. -/
  functionScope : Bool
  caller : Caller

namespace Walk

/-- The state in which an instruction is evaluated: its place is known to what it reports. -/
def visit (i : Instruction) (index : Nat) (w : Walk) : Walk :=
  { w with
    context := { w.context with position := some (index : Int), label := some i.displayName } }

/-- The break that was requested is taken note of. -/
def clearBreak (w : Walk) : Walk :=
  { w with context := { w.context with breakRequested := false } }

end Walk

namespace Host

variable (h : Host)

/-- Evaluates an instruction and logs its result; no reply if its handler fails. -/
def evaluate (i : Instruction) (index : Nat) (w : Walk) : Option Reply × Walk :=
  match i.evaluate h.settings.functionPrefix h.caller (w.visit i index).context with
  | .ok reply context => (some reply, { w with context := Setup.logged i reply context })
  | .error _ context => (none, { w with context })

/-- An instruction of unknown type does nothing; the first visit gives a warning. -/
def passUnknown (i : Instruction) (index : Nat) (w : Walk) : Walk :=
  if h.settings.warnUnknownTypes && !w.reported.contains index then
    { context := (w.visit i index).context.warn
        s!"Unknown instruction type '{i.tag}' treated as a no-op"
      reported := index :: w.reported }
  else w

/-- A plain instruction. -/
def act (i : Instruction) (index : Nat) (w : Walk) : Signal × Walk :=
  if Setup.isUnknown i then (.onward, h.passUnknown i index w)
  else
    match h.evaluate i index w with
    | (none, w) => (.failed, w)
    | (some _, w) =>
      if w.context.returned.isSome && h.functionScope then (.returned, w)
      else if w.context.breakRequested then (.broke, w.clearBreak)
      else (.onward, w)

/-- The loop that a header enters, if it does. -/
def entered? : LoopKind → Reply → Option LoopState
  | .whileLoop, .truth true => some .whileLoop
  | .numeric, .entry (.numeric loop) => some (.numeric loop)
  | .generic, .entry (.generic loop) => some (.generic loop)
  | _, _ => none

/-- The header of a loop. -/
def enter (kind : LoopKind) (header : Instruction) (index : Nat) (w : Walk) : Round × Walk :=
  match h.evaluate header index w with
  | (none, w) => (.failed, w)
  | (some reply, w) =>
    match entered? kind reply with
    | some state => (.again state, w)
    | none => (.ended, w)

/-- The next round of a loop that counts. -/
def count (loop : NumericLoop) (w : Walk) : Round × Walk :=
  match loop.advance with
  | .error _ => (.failed, w)
  | .ok next =>
    if next.inRange then
      (.again (.numeric next),
        { w with context := w.context.setVariables [(next.controlVariable, .number next.current)] })
    else (.ended, w)

/-- The next round of a loop over a table. -/
def iterate (loop : GenericLoop) (w : Walk) : Round × Walk :=
  match loop.advance w.context.heap with
  | (.error _, _) => (.failed, w)
  | (.ok (some (k, v)), next) =>
    (.again (.generic next),
      { w with context := w.context.setVariables [(next.keyVariable, k), (next.valueVariable, v)] })
  | (.ok none, _) => (.ended, w)

/-- What follows a round: a condition is tested again, any other loop moves on to its next value. -/
def advance (header : Instruction) (index : Nat) (finish : Instruction) (last : Nat)
    (state : LoopState) (w : Walk) : Round × Walk :=
  match state with
  | .whileLoop => h.enter .whileLoop header index w
  | .numeric loop => count loop (w.visit finish last)
  | .generic loop => iterate loop (w.visit finish last)

end Host

namespace Script

/-- The rounds of a loop, `fuel` of them at most. A break ends the loop and nothing else. -/
def rounds (body : Walk → Option (Signal × Walk)) (advance : LoopState → Walk → Round × Walk) :
    (fuel : Nat) → LoopState → Walk → Option (Signal × Walk)
  | 0, _, _ => none
  | fuel + 1, state, w =>
    match body w with
    | some (.onward, w) =>
      match advance state w with
      | (.again state, w) => rounds body advance fuel state w
      | (.ended, w) => some (.onward, w)
      | (.failed, w) => some (.failed, w)
    | some (.broke, w) => some (.onward, w)
    | stopped => stopped

/-- Goes on after a part of a script that went through. -/
def andThen (first : Option (Signal × Walk)) (next : Walk → Option (Signal × Walk)) :
    Option (Signal × Walk) :=
  match first with
  | some (.onward, w) => next w
  | stopped => stopped

/-- Interprets a script whose first instruction has the given index. No loop makes more than `fuel`
rounds; there is no answer if one would. -/
def run (h : Host) (fuel : Nat) : Script → (index : Nat) → Walk → Option (Signal × Walk)
  | .done, _, w => some (.onward, w)
  | .act i _ rest, index, w =>
    andThen (some (h.act (Program.identify i index) index w)) (rest.run h fuel (index + 1))
  | .branch header body _ rest, index, w =>
    let last := index + 1 + body.size
    match h.evaluate (Program.identify header.val index) index w with
    | (none, w) => some (.failed, w)
    | (some (.truth true), w) =>
      andThen (body.run h fuel (index + 1) w) (rest.run h fuel (last + 1))
    | (some _, w) => rest.run h fuel (last + 1) w
  | .choice header body _ other _ rest, index, w =>
    let middle := index + 1 + body.size
    let last := middle + 1 + other.size
    match h.evaluate (Program.identify header.val index) index w with
    | (none, w) => some (.failed, w)
    | (some (.truth true), w) =>
      andThen (body.run h fuel (index + 1) w) (rest.run h fuel (last + 1))
    | (some _, w) => andThen (other.run h fuel (middle + 1) w) (rest.run h fuel (last + 1))
  | .loop kind header body finish rest, index, w =>
    let header := Program.identify header.val index
    let last := index + 1 + body.size
    match h.enter kind header index w with
    | (.failed, w) => some (.failed, w)
    | (.ended, w) => rest.run h fuel (last + 1) w
    | (.again state, w) =>
      let advance := h.advance header index (Program.identify finish.val last) last
      andThen (rounds (body.run h fuel (index + 1)) advance fuel state w)
        (rest.run h fuel (last + 1))

/-- Interprets a whole script: whether it succeeds, and the state that it leaves. -/
def execute (h : Host) (fuel : Nat) (script : Script) (c : Context) :
    Option (Bool × Context) :=
  (script.run h fuel 0 { context := c }).map fun (signal, w) => (signal.succeeds, w.context)

/-- The marks of a script. -/
def marks (script : Script) : List Mark := script.flatten.map Instruction.control

theorem nested_marks (script : Script) : Block.Nested script.marks := by
  induction script with
  | done => exact .empty
  | act i hi rest ih => exact .plain hi ih
  | branch header body finish rest ihb ihr =>
    have hblock := Block.Nested.block (.whole ihb : Block.Inside .branch _) ihr
    simpa [marks, flatten, header.2, finish.2, BlockKind.opener, BlockKind.terminator] using hblock
  | choice header body middle other finish rest ihb iho ihr =>
    have hblock := Block.Nested.block (.divided ihb (.whole iho)) ihr
    simpa [marks, flatten, header.2, middle.2, finish.2, BlockKind.opener,
      BlockKind.terminator] using hblock
  | loop kind header body finish rest ihb ihr =>
    have hblock := Block.Nested.block (.whole ihb : Block.Inside kind.block _) ihr
    simpa [marks, flatten, header.2, finish.2] using hblock

end Script

end NodeScript
