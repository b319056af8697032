import NodeScript.Number.Printer
import NodeScript.Text.Quoted
import NodeScript.Value.Tree

/-!
The texts of a value: how messages display it, how it stands as a plain text, how scripts print it,
and its serial form. Each fails if an integer in it has too many digits or if tables in it nest too
deep; the serial form also fails for a table inside itself and for a map with a moment as a key.
-/

namespace NodeScript

def commaSeparated (parts : List String) : String :=
  ", ".intercalate parts

def bracketed (s : String) : String :=
  "[" ++ s ++ "]"

def braced (s : String) : String :=
  "\x7b" ++ s ++ "\x7d"

namespace Vector3

/-- The three coordinates as texts. -/
def texts (v : Vector3) : Except Fault (String × String × String) :=
  return (← v.x.text .plain, ← v.y.text .plain, ← v.z.text .plain)

/-- The vector as a script would write it. -/
def text (v : Vector3) : Except Fault String := do
  let (x, y, z) ← v.texts
  return s!"vector3({x}, {y}, {z})"

/-- The vector as messages display it inside a table. -/
def display (v : Vector3) : Except Fault String := do
  let (x, y, z) ← v.texts
  return s!"Vector3(x={x}, y={y}, z={z})"

end Vector3

namespace Key

def display : Key → Except Fault String
  | .text s => .ok (Text.quoted s)
  | .number n => n.text .plain
  | .bool b => .ok (if b then "True" else "False")
  | .moment m => .ok m.display
  | .nil => .ok "None"

/-- The key as a plain text. -/
def plain : Key → Except Fault String
  | .text s => .ok s
  | .moment m => .ok m.text
  | k => k.display

/-- The key as a member name in the serial form. -/
def json : Key → Except Fault String
  | .text s => .ok (Text.jsonQuoted s)
  | .number n => return Text.jsonQuoted (← n.text .json)
  | .bool b => .ok (if b then "\"true\"" else "\"false\"")
  | .moment m => .error (.momentMember m.kindName)
  | .nil => .ok "\"null\""

end Key

namespace Tree

mutual

/-- The text by which messages display a value, with `room` for so many tables inside each other. -/
def display : Tree → (room : Nat) → Except Fault String
  | .nil, _ => .ok "None"
  | .bool b, _ => .ok (if b then "True" else "False")
  | .number n, _ => n.text .plain
  | .text s, _ => .ok (Text.quoted s)
  | .vector v, _ => v.display
  | .moment m, _ => .ok m.display
  | .list _, 0 | .map _, 0 => .error (.tooDeep .display)
  | .list items, room + 1 => return bracketed (commaSeparated (← displayList items room))
  | .map entries, room + 1 => return braced (commaSeparated (← displayEntries entries room))
  | .again isMap _, _ => .ok (if isMap then braced "..." else bracketed "...")
termination_by structural t => t

def displayList : List Tree → (room : Nat) → Except Fault (List String)
  | [], _ => .ok []
  | t :: ts, room => do
    let head ← display t room
    return head :: (← displayList ts room)
termination_by structural ts => ts

def displayEntries : List (Key × Tree) → (room : Nat) → Except Fault (List String)
  | [], _ => .ok []
  | (k, t) :: es, room => do
    let name ← k.display
    let shown ← display t room
    return s!"{name}: {shown}" :: (← displayEntries es room)
termination_by structural es => es

end

/-- The value as a text of its own: like `display`, but a text stays as it is. -/
def plain (t : Tree) (room : Nat) : Except Fault String :=
  match t with
  | .text s => .ok s
  | .vector v => v.text
  | .moment m => .ok m.text
  | t => t.display room

mutual

/-- The serial form on one line. -/
def json : Tree → (room : Nat) → Except Fault String
  | .nil, _ => .ok "null"
  | .bool b, _ => .ok (if b then "true" else "false")
  | .number n, _ => n.text .json
  | .text s, _ => .ok (Text.jsonQuoted s)
  | .vector v, _ => return Text.jsonQuoted (← v.text)
  | .moment m, _ => .ok (Text.jsonQuoted m.text)
  | .list _, 0 | .map _, 0 => .error (.tooDeep .write)
  | .list items, room + 1 => return bracketed (commaSeparated (← jsonList items room))
  | .map entries, room + 1 => return braced (commaSeparated (← jsonEntries entries room))
  | .again _ _, _ => .error .circular
termination_by structural t => t

def jsonList : List Tree → (room : Nat) → Except Fault (List String)
  | [], _ => .ok []
  | t :: ts, room => do
    let head ← json t room
    return head :: (← jsonList ts room)
termination_by structural ts => ts

def jsonEntries : List (Key × Tree) → (room : Nat) → Except Fault (List String)
  | [], _ => .ok []
  | (k, t) :: es, room => do
    let name ← k.json
    let shown ← json t room
    return s!"{name}: {shown}" :: (← jsonEntries es room)
termination_by structural es => es

end

/-- A line break and the indentation of a nesting level, two spaces each. -/
def newLine (level : Nat) : String :=
  "\n" ++ String.ofList (List.replicate (2 * level) ' ')

/-- Parts on lines of their own between two brackets; nothing at all stays on one line. -/
def onLines (level : Nat) (opening closing : String) (parts : List String) : String :=
  if parts.isEmpty then opening ++ closing
  else
    opening ++ newLine (level + 1) ++ ("," ++ newLine (level + 1)).intercalate parts ++
      newLine level ++ closing

mutual

/-- The serial form with every item and every entry on a line of its own, inside `level` tables. -/
def jsonLines (level : Nat) : Tree → (room : Nat) → Except Fault String
  | .list _, 0 | .map _, 0 => .error (.tooDeep .writeLines)
  | .list items, room + 1 => return onLines level "[" "]" (← jsonLinesList (level + 1) items room)
  | .map entries, room + 1 =>
    return onLines level "\x7b" "\x7d" (← jsonLinesEntries (level + 1) entries room)
  | .nil, room => json .nil room
  | .bool b, room => json (.bool b) room
  | .number n, room => json (.number n) room
  | .text s, room => json (.text s) room
  | .vector v, room => json (.vector v) room
  | .moment m, room => json (.moment m) room
  | .again isMap up, room => json (.again isMap up) room
termination_by structural t => t

def jsonLinesList (level : Nat) : List Tree → (room : Nat) → Except Fault (List String)
  | [], _ => .ok []
  | t :: ts, room => do
    let head ← jsonLines level t room
    return head :: (← jsonLinesList level ts room)
termination_by structural ts => ts

def jsonLinesEntries (level : Nat) : List (Key × Tree) → (room : Nat) → Except Fault (List String)
  | [], _ => .ok []
  | (k, t) :: es, room => do
    let name ← k.json
    let shown ← jsonLines level t room
    return s!"{name}: {shown}" :: (← jsonLinesEntries level es room)
termination_by structural es => es

end

/-- The serial form, or the displayed text of a value that has none. A value that nests too deep has
neither. -/
def jsonOrDisplay (t : Tree) (room : Nat) : Except Fault String :=
  match t.json room with
  | .ok s => .ok s
  | .error (.tooDeep work) => .error (.tooDeep work)
  | .error _ => t.display room

/-- The text that a script prints for a value. -/
def scriptText (t : Tree) (room : Nat) : Except Fault String :=
  match t with
  | .nil => .ok "nil"
  | .bool b => .ok (if b then "true" else "false")
  | .list _ | .map _ => t.jsonOrDisplay room
  | t => t.plain room

end Tree

namespace Heap

def display (h : Heap) (room : Nat) (v : Value) : Except Fault String := (h.tree v).display room

def plain (h : Heap) (room : Nat) (v : Value) : Except Fault String := (h.tree v).plain room

def scriptText (h : Heap) (room : Nat) (v : Value) : Except Fault String :=
  (h.tree v).scriptText room

def jsonOrDisplay (h : Heap) (room : Nat) (v : Value) : Except Fault String :=
  (h.tree v).jsonOrDisplay room

end Heap

end NodeScript
