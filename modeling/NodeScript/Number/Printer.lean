import NodeScript.Number.Basic
import NodeScript.Number.Shortest

/-! Number texts: integers in full, doubles with the fewest digits that read back. -/

namespace NodeScript

/-- How doubles are spelled. -/
structure FloatStyle where
  infinity : String
  notNumber : String
  /-- Powers of ten of the first digit that are written without an exponent. -/
  positionalFrom : Int := -4
  positionalBelow : Int := 16

namespace FloatStyle

/-- The spelling in texts and messages. -/
def plain : FloatStyle where
  infinity := "inf"
  notNumber := "nan"

/-- The spelling in serialised tables. -/
def json : FloatStyle where
  infinity := "Infinity"
  notNumber := "NaN"

end FloatStyle

def zeros (count : Nat) : List Char :=
  List.replicate count '0'

/-- At least two digits. -/
def exponentDigits (n : Nat) : List Char :=
  zeros (2 - (Nat.toDigits 10 n).length) ++ Nat.toDigits 10 n

def Dyadic.Digits.positional (d : Dyadic.Digits) : List Char :=
  if d.exponent < 0 then '0' :: '.' :: zeros (-d.exponent - 1).toNat ++ d.digits
  else
    let count := d.exponent.toNat + 1
    let after := d.digits.drop count
    d.digits.take count ++ zeros (count - d.digits.length) ++
      '.' :: if after.isEmpty then ['0'] else after

def Dyadic.Digits.scientific (d : Dyadic.Digits) : List Char :=
  let after := d.digits.drop 1
  d.digits.take 1 ++ (if after.isEmpty then [] else '.' :: after) ++
    'e' :: (if d.exponent < 0 then '-' else '+') :: exponentDigits d.exponent.natAbs

def Dyadic.chars (style : FloatStyle) (d : Dyadic) : List Char :=
  let digits := d.shortest
  let body :=
    if style.positionalFrom ≤ digits.exponent && digits.exponent < style.positionalBelow
    then digits.positional else digits.scientific
  if d.negative then '-' :: body else body

def FloatStyle.text (style : FloatStyle) (x : Float) : String :=
  match Dyadic.ofFloat? x with
  | some d => String.ofList (d.chars style)
  | none =>
    if x.isNaN then style.notNumber
    else if x < 0 then "-" ++ style.infinity
    else style.infinity

namespace Number

/-- All digits of the integer, if there are not too many. An integer with more than four bits for
each digit that it may have has too many, so its digits need not be found. -/
def integerText (n : Int) : Except Fault String :=
  if n.natAbs.log2 > 4 * digitLimit then .error .integerTooLong
  else
    let digits := Nat.toDigits 10 n.natAbs
    if digits.length > digitLimit then .error .integerTooLong
    else .ok (String.ofList (if n < 0 then '-' :: digits else digits))

def text (style : FloatStyle) : Number → Except Fault String
  | .int n => integerText n
  | .float x => .ok (style.text x)
  | .nan _ => .ok style.notNumber

end Number

end NodeScript
