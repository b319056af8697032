import NodeScript.Number.Basic
import NodeScript.Text.CharClass

/-!
Reading numbers from texts: integers in a base, with single underscores between digits, and decimal
fractions with an exponent, which become the nearest double.
-/

namespace NodeScript.Number

open Text

/-- Why a text is no integer. -/
inductive ReadError where
  | malformed
  | tooManyDigits (digits : Nat)
deriving DecidableEq, Repr

/-- A sign, if there is one, and what follows it. -/
def splitSign : List Char → Bool × List Char
  | '-' :: cs => (true, cs)
  | '+' :: cs => (false, cs)
  | cs => (false, cs)

/-- The value of a digit in a base of up to thirty-six. -/
def digitIn? (base : Nat) (c : Char) : Option Nat :=
  let value? :=
    match digitValue? c with
    | some d => some d
    | none =>
      if c.isLower then some (c.toNat - 'a'.toNat + 10)
      else if c.isUpper then some (c.toNat - 'A'.toNat + 10)
      else none
  value?.filter (· < base)

/-- The digits of a row in which single underscores may stand between two digits. -/
def digitRow? (base : Nat) : List Char → Option (List Nat)
  | [] => none
  | [c] => (digitIn? base c).map ([·])
  | c :: '_' :: cs => do
    let d ← digitIn? base c
    return d :: (← digitRow? base cs)
  | c :: cs => do
    let d ← digitIn? base c
    return d :: (← digitRow? base cs)

/-- The letter that announces a base after a zero. -/
def baseOfMark? (c : Char) : Option Nat :=
  match c.toLower with
  | 'x' => some 16
  | 'o' => some 8
  | 'b' => some 2
  | _ => none

/-- Bases in which a row of any length is read. -/
def isPowerOfTwoBase (base : Nat) : Bool :=
  [2, 4, 8, 16, 32].contains base

/-- Base zero stands for the base that the text itself announces, ten if it announces none. -/
def splitBase (base : Nat) (cs : List Char) : Nat × List Char :=
  match cs with
  | z :: m :: rest =>
    match digitValue? z, baseOfMark? m with
    | some 0, some announced =>
      if base = announced || base = 0 then
        (announced, match rest with | '_' :: r => r | r => r)
      else (if base = 0 then 10 else base, cs)
    | _, _ => (if base = 0 then 10 else base, cs)
  | _ => (if base = 0 then 10 else base, cs)

/-- Without an announced base a literal may not begin with a zero, unless it is zero. -/
def isPaddedLiteral (base : Nat) (cs : List Char) (value : Nat) : Bool :=
  base == 0 && value != 0 &&
    match cs with
    | z :: m :: _ => digitValue? z == some 0 && (baseOfMark? m).isNone
    | _ => false

/-- Reads an integer from a text without blanks around it. -/
def readInt (base : Nat) (text : List Char) : Except ReadError Int :=
  let (negative, body) := splitSign text
  let (actual, row) := splitBase base body
  if base = 1 || base > 36 then .error .malformed
  else
    match digitRow? actual row with
    | none => .error .malformed
    | some digits =>
      if digits.length > digitLimit && !isPowerOfTwoBase actual then
        .error (.tooManyDigits digits.length)
      else
        let value := natOfDigits actual 0 digits
        if isPaddedLiteral base body value then .error .malformed
        else .ok (if negative then -(value : Int) else value)

/-- The text without its underscores, each of which must stand between two digits. -/
def dropUnderscores? : List Char → Option (List Char)
  | [] => some []
  | '_' :: _ => none
  | d :: '_' :: c :: cs =>
    if isDigit d && isDigit c then (dropUnderscores? (c :: cs)).map (d :: ·) else none
  | c :: cs => (dropUnderscores? cs).map (c :: ·)

/-- A row of decimal digits and the rest of the text. -/
def spanDigits : List Char → List Nat × List Char
  | [] => ([], [])
  | c :: cs =>
    match digitValue? c with
    | some d => let (ds, rest) := spanDigits cs; (d :: ds, rest)
    | none => ([], c :: cs)

/-- More digits than a double has, or a point halfway between two doubles. -/
def significantDigits : Nat := 800

/-- The first digits, with a one after them if any of the others is not zero. The number lies on the
same side of every double and of every point halfway between two. -/
def leadingDigits (digits : List Nat) : List Nat :=
  digits.take significantDigits ++
    if (digits.drop significantDigits).any (· != 0) then [1] else []

/-- The double nearest to the number with these digits and `exponent` zeros after them, or places
behind the point if it is negative. Numbers far outside the range of doubles are settled by the
place of their first digit alone. -/
def decimalToFloat (negative : Bool) (digits : List Nat) (exponent : Int) : Float :=
  let digits := digits.dropWhile (· == 0)
  let top := exponent + digits.length
  let nearest :=
    if digits.isEmpty || top < -400 then Dyadic.round false 0 1
    else if top > 400 then Dyadic.round false (tenPow 400) 1
    else
      let leading := leadingDigits digits
      let exponent := top - leading.length
      Dyadic.round false (natOfDigits 10 0 leading * tenPow exponent.toNat)
        (tenPow (-exponent).toNat)
  if negative then -nearest else nearest

/-- The digits of an exponent that are read. With more than these it is out of any range. -/
def exponentDigits : Nat := 20

/-- An exponent that takes up the rest of a decimal text. -/
def exponent? : List Char → Option Int
  | [] => some 0
  | e :: cs =>
    if e.toLower = 'e' then
      let (negative, body) := splitSign cs
      match spanDigits body with
      | ([], _) => none
      | (ds, []) =>
        let n := natOfDigits 10 0 ((ds.dropWhile (· == 0)).take exponentDigits)
        some (if negative then -(n : Int) else n)
      | _ => none
    else none

/-- Digits with at most one point among them, then perhaps an exponent. -/
def readDecimal? (negative : Bool) (cs : List Char) : Option Float :=
  let (whole, rest) := spanDigits cs
  let (places, rest) :=
    match rest with
    | '.' :: r => spanDigits r
    | r => ([], r)
  if whole.isEmpty && places.isEmpty then none
  else do
    let e ← exponent? rest
    return decimalToFloat negative (whole ++ places) (e - places.length)

/-- Reads a double from a text without blanks around it. -/
def readFloat? (text : List Char) : Option Float := do
  let (negative, body) := splitSign (← dropUnderscores? text)
  let word := String.ofList (lowerChars body)
  if word = "inf" || word = "infinity" then
    return if negative then -1.0 / 0.0 else 1.0 / 0.0
  else if word = "nan" then return 0.0 / 0.0
  else readDecimal? negative body

end NodeScript.Number
