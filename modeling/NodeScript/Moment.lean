/-!
Moments: days of the calendar, and times on them. Documents write moments; scripts only pass them on
and print them.
-/

namespace NodeScript

structure Day where
  year : Nat
  month : Nat
  day : Nat
deriving DecidableEq, Repr

/-- A time of day. The offset is how many minutes it is ahead of the common time, if that is
known. -/
structure Clock where
  hour : Nat
  minute : Nat
  second : Nat
  microsecond : Nat
  offset : Option Int
deriving DecidableEq, Repr

inductive Moment where
  | day (d : Day)
  | time (d : Day) (c : Clock)
deriving DecidableEq, Repr

/-- What is wrong with a moment. -/
inductive MomentError where
  | year (n : Nat)
  | month
  | day
  | hour
  | minute
  | second
  | offset (minutes : Int)
deriving DecidableEq, Repr

/-- A number of minutes as messages display it, in days and seconds of which only the days can be
negative. -/
def minutesText (minutes : Int) : String :=
  let days := minutes / 1440
  let seconds := minutes % 1440 * 60
  let parts :=
    (if days = 0 then [] else [s!"days={days}"]) ++
      if seconds = 0 then [] else [s!"seconds={seconds}"]
  "datetime.timedelta(" ++ (if parts.isEmpty then "0" else ", ".intercalate parts) ++ ")"

def MomentError.message : MomentError → String
  | .year n => s!"year {n} is out of range"
  | .month => "month must be in 1..12"
  | .day => "day is out of range for month"
  | .hour => "hour must be in 0..23"
  | .minute => "minute must be in 0..59"
  | .second => "second must be in 0..59"
  | .offset minutes =>
    "offset must be a timedelta strictly between -timedelta(hours=24) and timedelta(hours=24), " ++
      s!"not {minutesText minutes}."

/-- A number with zeros in front up to a width. -/
def padded (width n : Nat) : String :=
  let digits := Nat.toDigits 10 n
  String.ofList (List.replicate (width - digits.length) '0' ++ digits)

namespace Day

def isLeap (year : Nat) : Bool :=
  year % 4 == 0 && (year % 100 != 0 || year % 400 == 0)

def daysIn (year month : Nat) : Nat :=
  if month = 2 then if isLeap year then 29 else 28
  else if [4, 6, 9, 11].contains month then 30
  else 31

def check (d : Day) : Except MomentError Unit :=
  if d.year = 0 then .error (.year d.year)
  else if d.month = 0 || d.month > 12 then .error .month
  else if d.day = 0 || d.day > daysIn d.year d.month then .error .day
  else .ok ()

/-- The number of a day, counted from the first day of the first year. -/
def number (d : Day) : Nat :=
  let years := d.year - 1
  let months := (List.range d.month).drop 1
  let beforeMonth := months.foldl (fun days month => days + daysIn d.year month) 0
  365 * years + years / 4 - years / 100 + years / 400 + beforeMonth + d.day

def text (d : Day) : String :=
  s!"{padded 4 d.year}-{padded 2 d.month}-{padded 2 d.day}"

end Day

namespace Clock

/-- The offset is looked at first, and must be less than a day. -/
def checkOffset (c : Clock) : Except MomentError Unit :=
  match c.offset with
  | some minutes => if minutes.natAbs < 1440 then .ok () else .error (.offset minutes)
  | none => .ok ()

def check (c : Clock) : Except MomentError Unit :=
  if c.hour > 23 then .error .hour
  else if c.minute > 59 then .error .minute
  else if c.second > 59 then .error .second
  else .ok ()

def offsetText (minutes : Int) : String :=
  let size := minutes.natAbs
  (if minutes < 0 then "-" else "+") ++ s!"{padded 2 (size / 60)}:{padded 2 (size % 60)}"

/-- Parts of a second are written only if there are any. -/
def text (c : Clock) : String :=
  s!"{padded 2 c.hour}:{padded 2 c.minute}:{padded 2 c.second}" ++
    (if c.microsecond = 0 then "" else "." ++ padded 6 c.microsecond) ++
    (c.offset.map offsetText).getD ""

def offsetDisplay (minutes : Int) : String :=
  if minutes = 0 then "tzinfo=datetime.timezone.utc"
  else s!"tzinfo=datetime.timezone({minutesText minutes})"

/-- The parts that messages display: trailing zeros after the minutes are left out. -/
def parts (c : Clock) : List String :=
  [toString c.hour, toString c.minute] ++
    (if c.microsecond ≠ 0 then [toString c.second, toString c.microsecond]
     else if c.second ≠ 0 then [toString c.second] else []) ++
    (c.offset.map offsetDisplay).toList

/-- The minutes since the first day, at the common time. -/
def commonMinutes (d : Day) (c : Clock) (offset : Int) : Int :=
  d.number * 1440 + c.hour * 60 + c.minute - offset

end Clock

namespace Moment

def check : Moment → Except MomentError Unit
  | .day d => d.check
  | .time d c => do
    c.checkOffset
    d.check
    c.check

/-- Times with offsets are the same if they are at the same common time; a time with an offset is
never the same as one without. -/
def same : Moment → Moment → Bool
  | .day d, .day e => d == e
  | .time d c, .time e k =>
    match c.offset, k.offset with
    | none, none => d == e && c == k
    | some o, some p =>
      c.commonMinutes d o == k.commonMinutes e p && c.second == k.second &&
        c.microsecond == k.microsecond
    | _, _ => false
  | _, _ => false

/-- Whether one of two moments is before the other, or they are the same. -/
def areOrdered : Moment → Moment → Bool
  | .day _, .day _ => true
  | .time _ c, .time _ k => c.offset.isSome == k.offset.isSome
  | _, _ => false

def isTime : Moment → Bool
  | .day _ => false
  | .time _ _ => true

def kindName (m : Moment) : String :=
  if m.isTime then "datetime" else "date"

def text : Moment → String
  | .day d => d.text
  | .time d c => d.text ++ " " ++ c.text

def display : Moment → String
  | .day d => s!"datetime.date({d.year}, {d.month}, {d.day})"
  | .time d c =>
    s!"datetime.datetime({d.year}, {d.month}, {d.day}, " ++ ", ".intercalate c.parts ++ ")"

end Moment

end NodeScript
