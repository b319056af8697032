import NodeScript.Number.Dyadic

/-!
The fewest decimal digits that read back as a given double: on the grids of one digit, two digits
and so on, the value's two neighbours are tested for lying among the reals that round to the value.
-/

namespace NodeScript.Dyadic

/-- Decimal digits, the first one not zero, and the power of ten at which the first one stands. -/
structure Digits where
  digits : List Char
  exponent : Int
deriving DecidableEq, Repr

/-- The largest `k` with `10 ^ k ≤ num / den`. The first guess is at most one off. -/
def decimalExponent (num den : Nat) : Int :=
  let atMost (k : Int) : Bool := den * tenPow k.toNat ≤ num * tenPow (-k).toNat
  let guess : Int := (binaryExponent num den * 30103).fdiv 100000
  if atMost (guess + 1) then guess + 1 else if atMost guess then guess else guess - 1

/-- The reals that round to `significand * 2 ^ exponent`, in units of a quarter of the last place. -/
structure Interval where
  low : Nat
  middle : Nat
  high : Nat
  closed : Bool

def interval (d : Dyadic) : Interval where
  low := if d.significand = twoPow 52 && d.exponent != -1074
    then 4 * d.significand - 1 else 4 * d.significand - 2
  middle := 4 * d.significand
  high := 4 * d.significand + 2
  closed := d.significand % 2 == 0

/-- The point of the grid `10 ^ k` next to the value, if it rounds to the value. Of two such points
the nearer is taken, and of two equally near ones the even one. -/
def onGrid? (d : Dyadic) (k : Int) : Option Nat :=
  let quarter := d.exponent - 2
  let unit := twoPow quarter.toNat * tenPow (-k).toNat
  let step := tenPow k.toNat * twoPow (-quarter).toNat
  let i := d.interval
  let value := i.middle * unit
  let below := value / step
  let hit (p : Nat) : Bool :=
    if i.closed then i.low * unit ≤ p * step && p * step ≤ i.high * unit
    else i.low * unit < p * step && p * step < i.high * unit
  match hit below, hit (below + 1) with
  | true, true =>
    let twice := 2 * (value % step)
    some (if twice < step || (twice == step && below % 2 == 0) then below else below + 1)
  | true, false => some below
  | false, true => some (below + 1)
  | false, false => none

def dropTrailingZeros (cs : List Char) : List Char :=
  (cs.reverse.dropWhile (· == '0')).reverse

/-- Tries grids of ever more digits; `tries` counts those left. -/
def shortestFrom (d : Dyadic) (top : Int) : (tries : Nat) → (count : Nat) → Digits
  | 0, _ => ⟨['0'], 0⟩
  | tries + 1, count =>
    let k := top - count + 1
    match d.onGrid? k with
    | some p =>
      let cs := Nat.toDigits 10 p
      ⟨dropTrailingZeros cs, k + cs.length - 1⟩
    | none => d.shortestFrom top tries (count + 1)

/-- Seventeen digits always tell a double from its neighbours. -/
def shortest (d : Dyadic) : Digits :=
  if d.significand = 0 then ⟨['0'], 0⟩
  else
    let (num, den) := d.fraction
    d.shortestFrom (decimalExponent num.natAbs den) 17 1

end NodeScript.Dyadic
