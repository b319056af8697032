/-! Doubles as exact fractions: taking one apart, and rounding a fraction to one. -/

namespace NodeScript

def twoPow (k : Nat) : Nat := Nat.pow 2 k

def tenPow (k : Nat) : Nat := Nat.pow 10 k

/-- A finite double: `significand * 2 ^ exponent`, with the sign apart so that minus zero has one. -/
structure Dyadic where
  negative : Bool
  significand : Nat
  exponent : Int
deriving DecidableEq, Repr

namespace Dyadic

/-- None for an infinity and for a value that is no number. -/
def ofFloat? (x : Float) : Option Dyadic :=
  let bits := x.toBits.toNat
  let magnitude : Nat := bits % twoPow 63
  let field : Nat := magnitude / twoPow 52
  let fraction : Nat := magnitude % twoPow 52
  if field = 2047 then none
  else if field = 0 then some ⟨twoPow 63 ≤ bits, fraction, -1074⟩
  else some ⟨twoPow 63 ≤ bits, twoPow 52 + fraction, field - 1075⟩

/-- The value as a fraction with a signed numerator. -/
def fraction (d : Dyadic) : Int × Nat :=
  let scaled : Nat := d.significand * twoPow d.exponent.toNat
  (if d.negative then -(scaled : Int) else scaled, twoPow (-d.exponent).toNat)

/-- The largest `k` with `2 ^ k ≤ num / den`. -/
def binaryExponent (num den : Nat) : Int :=
  let k : Int := (num.log2 : Int) - den.log2
  if den * twoPow k.toNat ≤ num * twoPow (-k).toNat then k else k - 1

/-- The quotient to the nearest natural number; a tie goes to the even one. -/
def roundQuotient (num den : Nat) : Nat :=
  let q := num / den
  let twice := 2 * (num % den)
  if twice < den || (twice == den && q % 2 == 0) then q else q + 1

/-- The bits of the nonnegative double nearest to `num / den`, an infinity included. The last two
summands carry over into each other, so a significand that rounds up to the next power of two needs
no care. -/
def roundBits (num den : Nat) : Nat :=
  if num = 0 then 0
  else
    let q := max (binaryExponent num den - 52) (-1074)
    let rounded := roundQuotient (num * twoPow (-q).toNat) (den * twoPow q.toNat)
    min ((q + 1074).toNat * twoPow 52 + rounded) (2047 * twoPow 52)

/-- The double nearest to `± num / den`. -/
def round (negative : Bool) (num den : Nat) : Float :=
  Float.ofBits (UInt64.ofNat (roundBits num den + if negative then twoPow 63 else 0))

end Dyadic

end NodeScript
