import NodeScript.Moment

/-!
Reading moments: a day such as `2001-12-14`, and perhaps a time such as `21:59:43.1 +5:30` after it.
The fields need not be in range.
-/

namespace NodeScript.Moment

def decimal (digits : List Char) : Nat :=
  digits.foldl (fun n d => 10 * n + (d.toNat - '0'.toNat)) 0

/-- The digits at the front as a number, if there are as many as expected, and what follows. -/
def number? (least most : Nat) (cs : List Char) : Option (Nat × List Char) :=
  let digits := cs.takeWhile Char.isDigit
  if least ≤ digits.length && digits.length ≤ most then
    some (decimal digits, cs.dropWhile Char.isDigit)
  else none

def after? (mark : Char) : List Char → Option (List Char)
  | c :: cs => if c = mark then some cs else none
  | [] => none

def isGap (c : Char) : Bool :=
  c == ' ' || c == '\t'

/-- What follows the letter or the blanks between a day and a time. -/
def afterDay? : List Char → Option (List Char)
  | 'T' :: cs | 't' :: cs => some cs
  | c :: cs => if isGap c then some (cs.dropWhile isGap) else none
  | [] => none

/-- The microseconds after the point; further places are cut off. -/
def microseconds : List Char → Nat × List Char
  | '.' :: cs =>
    let places := (cs.takeWhile Char.isDigit).take 6
    (decimal (places ++ List.replicate (6 - places.length) '0'), cs.dropWhile Char.isDigit)
  | cs => (0, cs)

/-- Hours and perhaps minutes. -/
def hoursMinutes? (cs : List Char) : Option Int := do
  let (hours, cs) ← number? 1 2 cs
  match cs with
  | [] => return 60 * hours
  | cs =>
    let (minutes, cs) ← number? 2 2 (← after? ':' cs)
    if cs.isEmpty then return 60 * hours + minutes else none

/-- The offset at the end of a time, which may be left out. -/
def offset? (cs : List Char) : Option (Option Int) :=
  if cs.isEmpty then some none
  else
    match cs.dropWhile isGap with
    | ['Z'] => some (some 0)
    | '+' :: cs => (hoursMinutes? cs).map some
    | '-' :: cs => (hoursMinutes? cs).map fun minutes => some (-minutes)
    | _ => none

def clock? (cs : List Char) : Option Clock := do
  let (hour, cs) ← number? 1 2 cs
  let (minute, cs) ← number? 2 2 (← after? ':' cs)
  let (second, cs) ← number? 2 2 (← after? ':' cs)
  let (microsecond, cs) := microseconds cs
  return { hour, minute, second, microsecond, offset := ← offset? cs }

def read? (cs : List Char) : Option Moment := do
  let (year, cs) ← number? 4 4 cs
  let (month, cs) ← number? 1 2 (← after? '-' cs)
  let (place, cs) ← number? 1 2 (← after? '-' cs)
  let date : Day := ⟨year, month, place⟩
  if cs.isEmpty then return .day date else return .time date (← clock? (← afterDay? cs))

/-- The width of a day whose month and day have two digits each. -/
def fullWidth : Nat := "2001-12-14".length

/-- A plain word is a moment only if a day alone is written with all its digits. -/
def isPlain (cs : List Char) : Bool :=
  match read? cs with
  | some (.day _) => cs.length == fullWidth
  | some (.time _ _) => true
  | none => false

end NodeScript.Moment
