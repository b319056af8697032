/-!
Classes of characters: blanks, and the digits of all scripts. A class is given by the code points at
which membership changes.
-/

namespace NodeScript.Text

/-- The code points at which a class of characters begins or ends, in increasing order. -/
abbrev Edges := List Nat

/-- Whether `c` lies inside the class, starting from what holds below the first edge. -/
def Edges.inside : Edges → Bool → Nat → Bool
  | [], within, _ => within
  | e :: es, within, c => if c < e then within else Edges.inside es (!within) c

def Edges.contains (edges : Edges) (c : Char) : Bool :=
  edges.inside false c.toNat

/-! ### Blanks -/

def blankEdges : Edges :=
  [9, 14, 28, 33, 133, 134, 160, 161, 5760, 5761, 8192, 8203, 8232, 8234, 8239, 8240, 8287, 8288,
   12288, 12289]

/-- White space of any script, and the four separators before the space character. -/
def isBlank (c : Char) : Bool :=
  blankEdges.contains c

/-- The characters without blanks at either end. -/
def trimChars (cs : List Char) : List Char :=
  ((cs.dropWhile isBlank).reverse.dropWhile isBlank).reverse

/-- Lower case of the Latin letters `A` to `Z`; every other character stays. -/
def lowerChars (cs : List Char) : List Char :=
  cs.map Char.toLower

/-! ### Digits -/

/-- The digit zero of each script that has decimal digits; one to nine follow it. -/
def digitZeros : List Nat :=
  [48, 1632, 1776, 1984, 2406, 2534, 2662, 2790, 2918, 3046, 3174, 3302, 3430, 3558, 3664, 3792,
   3872, 4160, 4240, 6112, 6160, 6470, 6608, 6784, 6800, 6992, 7088, 7232, 7248, 42528, 43216,
   43264, 43472, 43504, 43600, 44016, 65296, 66720, 68912, 69734, 69872, 69942, 70096, 70384,
   70736, 70864, 71248, 71360, 71472, 71904, 72016, 72784, 73040, 73120, 92768, 92864, 93008,
   120782, 120792, 120802, 120812, 120822, 123200, 123632, 125264, 130032]

/-- The value of a decimal digit in any script. -/
def digitValue? (c : Char) : Option Nat :=
  (digitZeros.find? fun z => z ≤ c.toNat && c.toNat < z + 10).map (c.toNat - ·)

def isDigit (c : Char) : Bool :=
  (digitValue? c).isSome

/-- The number that a row of digit values writes in a base, after the value read so far. -/
def natOfDigits (base : Nat) : Nat → List Nat → Nat
  | value, [] => value
  | value, d :: ds => natOfDigits base (value * base + d) ds

def hexDigit (n : Nat) : Char :=
  if n < 10 then Char.ofNat (48 + n) else Char.ofNat (87 + n)

/-- The last `width` hexadecimal digits of a number. -/
def hexDigits : (width : Nat) → Nat → List Char
  | 0, _ => []
  | width + 1, n => hexDigits width (n / 16) ++ [hexDigit (n % 16)]

end NodeScript.Text
