import NodeScript.Fault

/-! Places in a document: what is left of the text, and the line and column at which it starts. -/

namespace NodeScript.Yaml

/-- Why a text is no document. -/
inductive ReadError where
  | malformed
  /-- The text is in order, but something that it writes has no value. -/
  | fault (f : Fault)
deriving DecidableEq, Repr

/-- Characters at which a line ends. -/
def isBreak (c : Char) : Bool :=
  c == '\n' || c.toNat == 0x85 || c.toNat == 0x2028 || c.toNat == 0x2029

/-- What a line break counts as in a text. -/
def breakText (c : Char) : Char :=
  if c.toNat == 0x85 then '\n' else c

def isBlank (c : Char) : Bool := c == ' ' || c == '\t'

def isGap (c : Char) : Bool := isBlank c || isBreak c

/-- Whether a word that goes before this text ends there. -/
def endsWord : List Char → Bool
  | [] => true
  | c :: _ => isGap c

/-- Whether a line that divides documents starts here. -/
def isSeparator : List Char → Bool
  | '-' :: '-' :: '-' :: cs => endsWord cs
  | '.' :: '.' :: '.' :: cs => endsWord cs
  | _ => false

/-- A mark that may stand before the text, and takes up no column. -/
def byteOrderMark : Char := Char.ofNat 0xFEFF

structure Cursor where
  rest : List Char
  index : Nat := 0
  line : Nat := 0
  column : Nat := 0
deriving DecidableEq, Repr

namespace Cursor

def peek? (c : Cursor) : Option Char := c.rest.head?

/-- The place after the next character. -/
def step (c : Cursor) : Cursor :=
  match c.rest with
  | [] => c
  | x :: rest =>
    if isBreak x then { rest, index := c.index + 1, line := c.line + 1, column := 0 }
    else if x == byteOrderMark then { c with rest, index := c.index + 1 }
    else { c with rest, index := c.index + 1, column := c.column + 1 }

/-- The place after some characters. -/
def advance : (count : Nat) → Cursor → Cursor
  | 0, c => c
  | count + 1, c => advance count c.step

/-- The place after the characters up to one that fails a test. -/
def skipWhile (test : Char → Bool) (c : Cursor) : Cursor :=
  advance (c.rest.takeWhile test).length c

end Cursor

end NodeScript.Yaml
