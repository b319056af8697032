import NodeScript.Number.Reader
import NodeScript.Text.Letter
import NodeScript.Value.Tree

/-!
Reading the serial form of tables. The reader takes one value and reports the first thing that is
wrong; a member name that is written twice keeps its first place and its last value.
-/

namespace NodeScript.Serial

open Number

/-- Why a text is no serial form. -/
inductive ReadError where
  | malformed
  | tooManyDigits (digits : Nat)
  /-- Too many tables are open at once. -/
  | tooDeep (work : NestedWork)
deriving DecidableEq, Repr

def isSpace (c : Char) : Bool :=
  c == ' ' || c == '\t' || c == '\n' || c == '\r'

def skipSpaces (cs : List Char) : List Char :=
  cs.dropWhile isSpace

def hexValue? (c : Char) : Option Nat :=
  if c.toNat < 128 then digitIn? 16 c else none

def hexValue4? (a b c d : Char) : Option Nat := do
  return ((← hexValue? a) * 16 + (← hexValue? b)) * 256 + (← hexValue? c) * 16 + (← hexValue? d)

/-- The character that a backslash and a letter stand for. -/
def escaped? : Char → Option Char
  | '"' => some '"'
  | '\\' => some '\\'
  | '/' => some '/'
  | 'b' => some (Char.ofNat 8)
  | 'f' => some (Char.ofNat 12)
  | 'n' => some '\n'
  | 'r' => some '\r'
  | 't' => some '\t'
  | _ => none

def isHighHalf (n : Nat) : Bool := 0xD800 ≤ n && n < 0xDC00

def isLowHalf (n : Nat) : Bool := 0xDC00 ≤ n && n < 0xE000

/-- The character whose halves have the given codes. -/
def joinHalves (high low : Nat) : Char :=
  Char.ofNat (0x10000 + (high - 0xD800) * 0x400 + (low - 0xDC00))

/-- What a quoted text is made of. -/
inductive Piece where
  | char (c : Char)
  /-- An escape that gives a code. -/
  | code (n : Nat)
deriving DecidableEq, Repr

/-- The text that is written; a high half and the low half after it make one character. -/
def pieceChars : List Piece → List Char
  | [] => []
  | .char c :: ps => c :: pieceChars ps
  | [.code n] => (Text.Letter.ofCode n).chars
  | .code n :: .char c :: ps => (Text.Letter.ofCode n).chars ++ c :: pieceChars ps
  | .code n :: .code m :: ps =>
    if isHighHalf n && isLowHalf m then joinHalves n m :: pieceChars ps
    else (Text.Letter.ofCode n).chars ++ pieceChars (.code m :: ps)
termination_by structural ps => ps

/-- The pieces of a text up to its closing mark, and the rest. -/
def textPieces : List Char → Option (List Piece × List Char)
  | [] => none
  | '"' :: cs => some ([], cs)
  | '\\' :: 'u' :: a :: b :: c :: d :: cs =>
    match hexValue4? a b c d with
    | none => none
    | some n => (textPieces cs).map fun (ps, r) => (.code n :: ps, r)
  | '\\' :: e :: cs =>
    match escaped? e with
    | none => none
    | some c => (textPieces cs).map fun (ps, r) => (.char c :: ps, r)
  | c :: cs =>
    if c.toNat < 32 || c == '\\' then none
    else (textPieces cs).map fun (ps, r) => (.char c :: ps, r)
termination_by structural cs => cs

def readText (cs : List Char) : Except ReadError (String × List Char) :=
  match textPieces cs with
  | some (ps, rest) => .ok (String.ofList (pieceChars ps), rest)
  | none => .error .malformed

def isAsciiDigit (c : Char) : Bool := '0' ≤ c && c ≤ '9'

/-- The places after the point, if a point with digits after it comes next. -/
def spanPlaces : List Char → List Char × List Char
  | '.' :: cs =>
    match cs.span isAsciiDigit with
    | ([], _) => ([], '.' :: cs)
    | (ds, rest) => ('.' :: ds, rest)
  | cs => ([], cs)

/-- The exponent, if a complete one comes next. -/
def spanExponent (cs : List Char) : List Char × List Char :=
  match cs with
  | e :: rest =>
    if e == 'e' || e == 'E' then
      let (sign, body) :=
        match rest with
        | '+' :: r => (['+'], r)
        | '-' :: r => (['-'], r)
        | r => ([], r)
      match body.span isAsciiDigit with
      | ([], _) => ([], cs)
      | (ds, r) => (e :: sign ++ ds, r)
    else ([], cs)
  | [] => ([], [])

/-- The digits of a whole number, which has no zero in front of other digits. -/
def spanWhole : List Char → List Char × List Char
  | '0' :: cs => (['0'], cs)
  | cs => cs.span isAsciiDigit

def readNumber (cs : List Char) : Except ReadError (Tree × List Char) :=
  let (sign, body) :=
    match cs with
    | '-' :: r => (['-'], r)
    | r => ([], r)
  match spanWhole body with
  | ([], _) => .error .malformed
  | (whole, rest) =>
    let (places, rest) := spanPlaces rest
    let (exponent, rest) := spanExponent rest
    if places.isEmpty && exponent.isEmpty then
      match readInt 10 (sign ++ whole) with
      | .ok n => .ok (.int n, rest)
      | .error (.tooManyDigits digits) => .error (.tooManyDigits digits)
      | .error .malformed => .error .malformed
    else
      match readFloat? (sign ++ whole ++ places ++ exponent) with
      | some x => .ok (.number (.float x), rest)
      | none => .error .malformed

/-- A word and the tree it stands for. The word for what is no number always means the same one. -/
def words : List (String × Tree) :=
  [("null", .nil), ("true", .bool true), ("false", .bool false),
   ("NaN", .number (.nan 0)), ("Infinity", .number (.float (1.0 / 0.0))),
   ("-Infinity", .number (.float (-1.0 / 0.0)))]

def readWord? (cs : List Char) : Option (Tree × List Char) :=
  words.findSome? fun (word, t) =>
    if word.toList.isPrefixOf cs then some (t, cs.drop word.length) else none

mutual

/-- Reads one value that starts at once, with `room` for so many tables inside each other. -/
def readValue : (fuel : Nat) → (room : Nat) → List Char → Except ReadError (Tree × List Char)
  | 0, _, _ => .error .malformed
  | fuel + 1, room, cs =>
    match cs with
    | '"' :: rest => do
      let (s, rest) ← readText rest
      return (.text s, rest)
    | '[' :: rest => do
      if room = 0 then .error (.tooDeep .readList)
      match skipSpaces rest with
      | ']' :: rest => return (.list [], rest)
      | rest =>
        let (items, rest) ← readItems fuel (room - 1) rest
        return (.list items, rest)
    | '\x7b' :: rest => do
      if room = 0 then .error (.tooDeep .readMap)
      match skipSpaces rest with
      | '\x7d' :: rest => return (.map [], rest)
      | rest =>
        let (entries, rest) ← readMembers fuel (room - 1) rest
        return (.map (Dict.ofList entries).entries, rest)
    | _ =>
      match readWord? cs with
      | some found => .ok found
      | none => readNumber cs
termination_by structural fuel => fuel

/-- Reads the items of a list up to its closing bracket. -/
def readItems : (fuel : Nat) → (room : Nat) → List Char → Except ReadError (List Tree × List Char)
  | 0, _, _ => .error .malformed
  | fuel + 1, room, cs => do
    let (item, rest) ← readValue fuel room cs
    match skipSpaces rest with
    | ']' :: rest => return ([item], rest)
    | ',' :: rest =>
      let (items, rest) ← readItems fuel room (skipSpaces rest)
      return (item :: items, rest)
    | _ => .error .malformed
termination_by structural fuel => fuel

/-- Reads the members of a map up to its closing brace. -/
def readMembers : (fuel : Nat) → (room : Nat) → List Char →
    Except ReadError (List (Key × Tree) × List Char)
  | 0, _, _ => .error .malformed
  | fuel + 1, room, cs =>
    match cs with
    | '"' :: rest => do
      let (name, rest) ← readText rest
      match skipSpaces rest with
      | ':' :: rest =>
        let (value, rest) ← readValue fuel room (skipSpaces rest)
        match skipSpaces rest with
        | '\x7d' :: rest => return ([(.text name, value)], rest)
        | ',' :: rest =>
          let (members, rest) ← readMembers fuel room (skipSpaces rest)
          return ((.text name, value) :: members, rest)
        | _ => .error .malformed
      | _ => .error .malformed
    | _ => .error .malformed
termination_by structural fuel => fuel

end

/-- Reads a text that holds one value and nothing else. An opening bracket takes two steps, one for
the table and one for what is in it, so twice the length bounds the steps. -/
def read (room : Nat) (cs : List Char) : Except ReadError Tree := do
  let (t, rest) ← readValue (2 * cs.length + 2) room (skipSpaces cs)
  if (skipSpaces rest).isEmpty then return t else .error .malformed

end NodeScript.Serial
