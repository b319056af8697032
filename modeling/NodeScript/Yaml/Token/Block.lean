import NodeScript.Yaml.Token.Plain

/-!
Block scalars: the lines below a mark that are indented deeper. Literal ones keep their line breaks,
folded ones join lines with spaces.
-/

namespace NodeScript.Yaml

/-- What happens to the line breaks at the end. -/
inductive Chomping where
  | clip
  | strip
  | keep
deriving DecidableEq, Repr

structure BlockHeader where
  chomping : Chomping := .clip
  /-- The indentation, counted from that of the surrounding block. -/
  increment : Option Nat := none

def chomping? : Char → Option Chomping
  | '+' => some .keep
  | '-' => some .strip
  | _ => none

def increment? (c : Char) : Option Nat :=
  if '0' ≤ c && c ≤ '9' then some (c.toNat - '0'.toNat) else none

/-- The marks after the one that starts the scalar, in either order, and how many there are. -/
def blockHeader (cs : List Char) : BlockHeader × Nat :=
  match cs with
  | [] => ({}, 0)
  | a :: rest =>
    match chomping? a, increment? a with
    | some chomping, _ =>
      match rest.head?.bind increment? with
      | some n => ({ chomping, increment := some n }, 2)
      | none => ({ chomping }, 1)
    | none, some n =>
      match rest.head?.bind chomping? with
      | some chomping => ({ chomping, increment := some n }, 2)
      | none => ({ increment := some n }, 1)
    | none, none => ({}, 0)

/-- The place after the rest of a line, which may hold a comment and nothing else. -/
def restOfLine (c : Cursor) : Except ReadError Cursor :=
  let c := c.skipWhile (· == ' ')
  let c := if c.peek? == some '#' then c.skipWhile (!isBreak ·) else c
  match c.peek? with
  | none => .ok c
  | some x => if isBreak x then .ok c.step else .error .malformed

/-- Empty lines: their breaks, how far the lines are indented at most, and the place after them. -/
structure EmptyLines where
  breaks : List Char := []
  indent : Nat := 0
  cursor : Cursor

/-- Skips empty lines, and the blanks in front of the next line. -/
def emptyLines : (fuel : Nat) → EmptyLines → EmptyLines
  | 0, e => e
  | fuel + 1, e =>
    match e.cursor.peek? with
    | none => e
    | some x =>
      let next := e.cursor.step
      if x == ' ' then emptyLines fuel { e with indent := max e.indent next.column, cursor := next }
      else if isBreak x then
        emptyLines fuel { e with breaks := e.breaks ++ [breakText x], cursor := next }
      else e

/-- Skips empty lines, and blanks up to an indentation. -/
def emptyLinesTo (indent : Nat) : (fuel : Nat) → (breaks : List Char) → Cursor → List Char × Cursor
  | 0, breaks, c => (breaks, c)
  | fuel + 1, breaks, c =>
    match c.peek? with
    | none => (breaks, c)
    | some x =>
      if x == ' ' && c.column < indent then emptyLinesTo indent fuel breaks c.step
      else if isBreak x then emptyLinesTo indent fuel (breaks ++ [breakText x]) c.step
      else (breaks, c)

/-- The lines of a block scalar: their text up to the last line break, this break, and those after
it. -/
structure BlockLines where
  text : List Char := []
  lastBreak : List Char := []
  breaks : List Char
  cursor : Cursor

def startsBlank : List Char → Bool
  | c :: _ => isBlank c
  | [] => false

/-- Adds lines as long as they are indented as the first one is. -/
def blockLines (isFolded : Bool) (indent : Nat) : (fuel : Nat) → BlockLines → BlockLines
  | 0, b => b
  | fuel + 1, b =>
    if b.cursor.column != indent || b.cursor.rest.isEmpty then b
    else
      let line := b.cursor.rest.takeWhile (!isBreak ·)
      let c := b.cursor.advance line.length
      let lastBreak := (c.rest.take 1).map breakText
      let (breaks, next) := emptyLinesTo indent fuel [] c.step
      let text := b.text ++ b.breaks ++ line
      if next.column = indent && !next.rest.isEmpty then
        let isJoined := isFolded && lastBreak == ['\n'] && !startsBlank line && !startsBlank next.rest
        let between := if !isJoined then lastBreak else if breaks.isEmpty then [' '] else []
        blockLines isFolded indent fuel { text := text ++ between, breaks, cursor := next }
      else { text, lastBreak, breaks, cursor := next }

/-- The block scalar whose mark comes next, inside a block of the given indentation. -/
def blockScalar (fuel : Nat) (surrounding : Int) (c : Cursor) :
    Except ReadError (String × Cursor) := do
  let isFolded := c.peek? == some '>'
  let (header, length) := blockHeader c.rest.tail
  let c := c.advance (length + 1)
  if header.increment = some 0 || !(c.rest.head?.all fun x => x == ' ' || isBreak x) then
    throw .malformed
  let c ← restOfLine c
  let least := (max (surrounding + 1) 1).toNat
  let (indent, breaks, c) :=
    match header.increment with
    | none =>
      let e := emptyLines fuel { cursor := c }
      (max least e.indent, e.breaks, e.cursor)
    | some n =>
      let indent := least + n - 1
      let (breaks, c) := emptyLinesTo indent fuel [] c
      (indent, breaks, c)
  let b := blockLines isFolded indent fuel { breaks, cursor := c }
  let tail :=
    match header.chomping with
    | .strip => []
    | .clip => b.lastBreak
    | .keep => b.lastBreak ++ b.breaks
  return (String.ofList (b.text ++ tail), b.cursor)

end NodeScript.Yaml
