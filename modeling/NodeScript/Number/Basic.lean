import NodeScript.Fault
import NodeScript.Number.Dyadic

/-!
Numbers of scripts: unbounded integers and doubles. Comparison is exact across the two kinds;
arithmetic stays with integers as long as both operands are integers, division apart.
-/

namespace NodeScript

inductive Number where
  | int (n : Int)
  | float (x : Float)
  /-- A double that is no number, stored somewhere. It equals nothing, but containers do not tell it
  from itself: the mark says which one it is. -/
  | nan (mark : Nat)
deriving DecidableEq, Repr

instance : Inhabited Number := ⟨.int 0⟩

/-- Why a power has no value. -/
inductive PowerError where
  | zeroToNegative
  | tooLarge
  | negativeBase
deriving DecidableEq, Repr

namespace Number

/-- The value as a fraction; none for the infinities and for a float that is no number. -/
def fraction? : Number → Option (Int × Nat)
  | .int n => some (n, 1)
  | .float x => (Dyadic.ofFloat? x).map Dyadic.fraction
  | .nan _ => none

/-- A double that is no number and has no mark yet. -/
def isUnmarked : Number → Bool
  | .float x => x.isNaN
  | _ => false

/-- Equality of value: `1` equals `1.0`, and a float that is no number equals nothing. -/
def eqv : Number → Number → Bool
  | .float x, .float y => x == y
  | a, b =>
    match a.fraction?, b.fraction? with
    | some (n, d), some (m, e) => n * e == m * d
    | _, _ => false

/-- What containers do not tell apart: equal numbers, and one and the same that is no number. -/
def alike : Number → Number → Bool
  | .nan m, .nan k => m == k
  | a, b => a.eqv b

def lt : Number → Number → Bool
  | .float x, .float y => x < y
  | .float x, .int m =>
    match (Number.float x).fraction? with
    | some (n, d) => n < m * d
    | none => x < 0
  | .int n, .float y =>
    match (Number.float y).fraction? with
    | some (m, e) => n * e < m
    | none => 0 < y
  | .int n, .int m => n < m
  | _, _ => false

def le (a b : Number) : Bool :=
  a.lt b || a.eqv b

def isZero (a : Number) : Bool :=
  a.eqv (.int 0)

def toFloat : Number → Except Fault Float
  | .float x => .ok x
  | .nan _ => .ok (0.0 / 0.0)
  | .int n =>
    let x := Dyadic.round (n < 0) n.natAbs 1
    if x.isInf then .error .integerTooLarge else .ok x

def isFinite (a : Number) : Except Fault Bool :=
  return (← a.toFloat).isFinite

/-- The value if it is whole. -/
def whole? (a : Number) : Option Int :=
  match a.fraction? with
  | some (n, d) => if n % d = 0 then some (n / d) else none
  | none => none

/-- The value without its fractional part. -/
def truncate? (a : Number) : Option Int :=
  a.fraction?.map fun (n, d) => n.tdiv d

/-- An operation that keeps integers exact and otherwise works on doubles. -/
def lift (onInts : Int → Int → Int) (onFloats : Float → Float → Float) :
    Number → Number → Except Fault Number
  | .int n, .int m => .ok (.int (onInts n m))
  | a, b => return .float (onFloats (← a.toFloat) (← b.toFloat))

def add : Number → Number → Except Fault Number :=
  lift (· + ·) (· + ·)

def sub : Number → Number → Except Fault Number :=
  lift (· - ·) (· - ·)

def mul : Number → Number → Except Fault Number :=
  lift (· * ·) (· * ·)

/-- The quotient, for a divisor other than zero. That of two integers is the nearest double. -/
def div : Number → Number → Except Fault Number
  | .int n, .int m =>
    let x := Dyadic.round ((n < 0) != (m < 0)) n.natAbs m.natAbs
    if x.isInf then .error .quotientTooLarge else .ok (.float x)
  | a, b => return .float ((← a.toFloat) / (← b.toFloat))

/-- The exact remainder with the sign of the dividend, for finite operands. -/
def truncatedRemainder (x y : Dyadic) : Float :=
  let q := min x.exponent y.exponent
  let a := x.significand * twoPow (x.exponent - q).toNat
  let b := y.significand * twoPow (y.exponent - q).toNat
  Dyadic.round x.negative (a % b * twoPow q.toNat) (twoPow (-q).toNat)

/-- The remainder with the sign of the divisor, for a divisor other than zero. -/
def floatMod (x y : Float) : Float :=
  let remainder :=
    match Dyadic.ofFloat? x, Dyadic.ofFloat? y with
    | some a, some b => truncatedRemainder a b
    | some _, none => if y.isNaN then y else x
    | none, _ => 0.0 / 0.0
  if remainder == 0 then (if y < 0 then -0.0 else 0.0)
  else if (y < 0) != (remainder < 0) then remainder + y
  else remainder

def mod : Number → Number → Except Fault Number :=
  lift Int.fmod floatMod

/-- The power on doubles; integers give an integer again while doubles hold it exactly. -/
def pow (a b : Number) : Except PowerError Number :=
  if a.isZero && b.lt (.int 0) then .error .zeroToNegative
  else
    match a.toFloat, b.toFloat with
    | .ok x, .ok y =>
      let result := x.pow y
      if x.isFinite && y.isFinite && result.isNaN then .error .negativeBase
      else if x.isFinite && y.isFinite && result.isInf then .error .tooLarge
      else
        match a, b, (Number.float result).whole? with
        | .int _, .int _, some n => .ok (if n.natAbs < twoPow 53 then .int n else .float result)
        | _, _, _ => .ok (.float result)
    | _, _ => .error .tooLarge

end Number

end NodeScript
