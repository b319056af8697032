import NodeScript.Value.Serial

/-!
What editor texts mean. A literal is a word, a number, a quoted text, or a quoted table in serial
form; any other text means itself without the blanks around it.
-/

namespace NodeScript

open Text Number

namespace Literal

/-- A number literal: an optional minus, digits, and perhaps a point with digits after it. -/
inductive NumberForm where
  | whole
  | fractional

def numberForm? (cs : List Char) : Option NumberForm :=
  let body := match cs with | '-' :: r => r | r => r
  match spanDigits body with
  | ([], _) => none
  | (_, []) => some .whole
  | (_, '.' :: rest) =>
    match spanDigits rest with
    | ([], _) => none
    | (_, []) => some .fractional
    | _ => none
  | _ => none

def isQuoteMark (c : Char) : Bool := c == '\'' || c == '"'

/-- What stands between two equal quote marks at the ends. -/
def unquoted? (cs : List Char) : Option (List Char) :=
  match cs with
  | mark :: rest =>
    match rest.getLast? with
    | some last => if isQuoteMark mark && last == mark then some rest.dropLast else none
    | none => none
  | [] => none

/-- Whether a text has the outer brackets of a serialised table. -/
def isBracketed (cs : List Char) : Bool :=
  match cs.head?, cs.getLast? with
  | some '\x7b', some '\x7d' => true
  | some '[', some ']' => true
  | _, _ => false

/-- A quoted text that is no valid serial form stays a text. -/
def readQuoted (room : Nat) (inner : List Char) : Except Fault Tree :=
  if isBracketed inner then
    match Serial.read room inner with
    | .ok t => .ok t
    | .error (.tooManyDigits digits) => .error (.integerTextTooLong digits)
    | .error (.tooDeep work) => .error (.tooDeep work)
    | .error .malformed => .ok (.text (String.ofList inner))
  else .ok (.text (String.ofList inner))

def readWhole (cs : List Char) : Except Fault Tree :=
  match readInt 10 cs with
  | .ok n => .ok (.int n)
  | .error (.tooManyDigits digits) => .error (.integerTextTooLong digits)
  | .error .malformed => .ok (.text (String.ofList cs))

def readFractional (cs : List Char) : Tree :=
  match readFloat? cs with
  | some x => .number (.float x)
  | none => .text (String.ofList cs)

/-- The value that an editor text means, with `room` for so many tables inside each other. -/
def read (room : Nat) (s : String) : Except Fault Tree :=
  let trimmed := trimChars s.toList
  let word := String.ofList (lowerChars trimmed)
  if word = "true" then .ok (.bool true)
  else if word = "false" then .ok (.bool false)
  else if word = "nil" || word = "null" then .ok .nil
  else
    match numberForm? trimmed with
    | some .whole => readWhole trimmed
    | some .fractional => .ok (readFractional trimmed)
    | none =>
      match unquoted? trimmed with
      | some inner => readQuoted room inner
      | none => .ok (.text (String.ofList trimmed))

end Literal

namespace Number

/-- Hexadecimal texts begin with `0x`, perhaps after a minus. -/
def isHexText (cs : List Char) : Bool :=
  let lowered := lowerChars cs
  ['0', 'x'].isPrefixOf lowered || ['-', '0', 'x'].isPrefixOf lowered

/-- The number a text writes, if it writes one. An integer with too many digits is read as a
double. -/
def ofText? (s : String) : Option Number :=
  let cs := trimChars s.toList
  if isHexText cs then (readInt 16 cs).toOption.map .int
  else
    match readInt 10 cs with
    | .ok n => some (.int n)
    | .error _ => (readFloat? cs).map .float

/-- The integer a text writes in a base, where zero stands for the base that the text announces. -/
def ofTextIn? (base : Int) (s : String) : Option Number :=
  if base < 0 then none
  else (readInt base.toNat (trimChars s.toList)).toOption.map .int

end Number

namespace Value

/-- The number that a value is or writes. Truth values are no numbers. -/
def toNumber? : Value → Option Number
  | .number n => some n
  | .text s => Number.ofText? s
  | _ => none

/-- In a given base only texts are converted. -/
def toNumberIn? (base : Int) : Value → Option Number
  | .text s => Number.ofTextIn? base s
  | _ => none

end Value

namespace Heap

/-- A text stands for the literal it writes, which may be a new table; other values for themselves. -/
def literal (h : Heap) (room : Nat) : Value → Except Fault (Value × Heap)
  | .text s => return h.store (← Literal.read room s)
  | v => .ok (v, h)

end Heap

end NodeScript
