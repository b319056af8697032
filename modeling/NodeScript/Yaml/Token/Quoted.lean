import NodeScript.Value.Serial
import NodeScript.Yaml.Token

/-! Quoted scalars. A line break in them counts as a space, further ones count as themselves. -/

namespace NodeScript.Yaml

/-- What stands between two words of a scalar. -/
inductive Gap where
  | blanks (text : List Char)
  | broken (first : Char) (later : List Char)
  /-- The first line break is escaped, so that it counts as nothing. -/
  | joined (later : List Char)
deriving DecidableEq, Repr

namespace Gap

def none : Gap := .blanks []

/-- What a gap adds to the scalar. -/
def text : Gap → List Char
  | .blanks text => text
  | .broken first later =>
    if first != '\n' then first :: later else if later.isEmpty then [' '] else later
  | .joined later => later

/-- The gap with one more blank; those around a line break are dropped. -/
def addBlank (c : Char) : Gap → Gap
  | .blanks text => .blanks (text ++ [c])
  | g => g

def addBreak (c : Char) : Gap → Gap
  | .blanks _ => .broken (breakText c) []
  | .broken first later => .broken first (later ++ [breakText c])
  | .joined later => .joined (later ++ [breakText c])

def isBroken : Gap → Bool
  | .blanks _ => false
  | _ => true

/-- The gap with one more blank or break, unless the line after it divides documents. -/
def add (c : Char) (rest : List Char) (g : Gap) : Except ReadError Gap :=
  if !isBreak c then .ok (g.addBlank c)
  else if isSeparator rest then .error .malformed
  else .ok (g.addBreak c)

end Gap

/-- What a scalar says, and how many characters were taken up. -/
abbrev Scanned := List Char × Nat

/-- Puts a gap and some characters in front of what follows. -/
def Scanned.after (g : Gap) (said : List Char) (taken : Nat) (s : Scanned) : Scanned :=
  (g.text ++ said ++ s.1, taken + s.2)

/-- What follows an opening single quote; a doubled quote stands for one. -/
def singleQuoted : Gap → List Char → Except ReadError Scanned
  | _, [] => .error .malformed
  | g, '\'' :: '\'' :: cs => return (← singleQuoted .none cs).after g ['\''] 2
  | g, c :: cs =>
    if c == '\'' then .ok (Scanned.after g [] 1 ([], 0))
    else if isGap c then do
      let g ← g.add c cs
      return (← singleQuoted g cs).after .none [] 1
    else return (← singleQuoted .none cs).after g [c] 1
termination_by structural _ cs => cs

/-- The character that a backslash and a character stand for between double quotes. -/
def escaped? : Char → Option Char
  | '0' => some (Char.ofNat 0)
  | 'a' => some (Char.ofNat 7)
  | 'b' => some (Char.ofNat 8)
  | 't' | '\t' => some '\t'
  | 'n' => some '\n'
  | 'v' => some (Char.ofNat 11)
  | 'f' => some (Char.ofNat 12)
  | 'r' => some '\r'
  | 'e' => some (Char.ofNat 27)
  | ' ' => some ' '
  | '"' => some '"'
  | '/' => some '/'
  | '\\' => some '\\'
  | 'N' => some (Char.ofNat 0x85)
  | '_' => some (Char.ofNat 0xA0)
  | 'L' => some (Char.ofNat 0x2028)
  | 'P' => some (Char.ofNat 0x2029)
  | _ => none

def codeLimit : Nat := 0x110000

/-- The letter whose code eight digits write. -/
def wideLetter (high low : Option Nat) : Except ReadError Text.Letter :=
  match high, low with
  | some high, some low =>
    let code := high * 0x10000 + low
    if code < codeLimit then .ok (.ofCode code) else .error (.fault (.noCharacter code))
  | _, _ => .error .malformed

def narrowLetter : Option Nat → Except ReadError Text.Letter
  | some code => .ok (.ofCode code)
  | none => .error .malformed

/-- What follows an opening double quote. -/
def doubleQuoted : Gap → List Char → Except ReadError Scanned
  | _, [] => .error .malformed
  | gap, '\\' :: 'U' :: a :: b :: c :: d :: e :: f :: g :: h :: cs => do
    let letter ← wideLetter (Serial.hexValue4? a b c d) (Serial.hexValue4? e f g h)
    return (← doubleQuoted .none cs).after gap letter.chars 10
  | gap, '\\' :: 'u' :: a :: b :: c :: d :: cs => do
    let letter ← narrowLetter (Serial.hexValue4? a b c d)
    return (← doubleQuoted .none cs).after gap letter.chars 6
  | gap, '\\' :: 'x' :: a :: b :: cs => do
    let letter ← narrowLetter (Serial.hexValue4? '0' '0' a b)
    return (← doubleQuoted .none cs).after gap letter.chars 4
  | gap, '\\' :: c :: cs =>
    if isBreak c then
      if isSeparator cs then .error .malformed
      else return (← doubleQuoted (.joined []) cs).after gap [] 2
    else
      match escaped? c with
      | some e => return (← doubleQuoted .none cs).after gap [e] 2
      | none => .error .malformed
  | gap, c :: cs =>
    if c == '"' then .ok (Scanned.after gap [] 1 ([], 0))
    else if c == '\\' then .error .malformed
    else if isGap c then do
      let gap ← gap.add c cs
      return (← doubleQuoted gap cs).after .none [] 1
    else return (← doubleQuoted .none cs).after gap [c] 1
termination_by structural _ cs => cs

/-- The scalar whose opening quote comes next, and the place after it. -/
def quotedScalar (c : Cursor) : Except ReadError (String × Cursor) := do
  let inner := c.rest.tail
  let (said, taken) ←
    if c.peek? == some '\'' then singleQuoted .none inner else doubleQuoted .none inner
  return (String.ofList said, c.advance (taken + 1))

end NodeScript.Yaml
