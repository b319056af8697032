import NodeScript.Moment.Reader
import NodeScript.Number.Reader
import NodeScript.Text.Quoted
import NodeScript.Value.Basic
import NodeScript.Yaml.Token

/-!
What plain words mean in a document: nothing, truth values, numbers, moments, or the word itself.
-/

namespace NodeScript.Yaml

open Number Text

def nullWords : List String := ["", "~", "null", "Null", "NULL"]

def trueWords : List String :=
  ["yes", "Yes", "YES", "true", "True", "TRUE", "on", "On", "ON"]

def falseWords : List String :=
  ["no", "No", "NO", "false", "False", "FALSE", "off", "Off", "OFF"]

def isDecimal (c : Char) : Bool := '0' ≤ c && c ≤ '9'

def isDecimalOrGap (c : Char) : Bool := isDecimal c || c == '_'

def isHexOrGap (c : Char) : Bool :=
  isDecimalOrGap c || ('a' ≤ c && c ≤ 'f') || ('A' ≤ c && c ≤ 'F')

def isOctalOrGap (c : Char) : Bool := ('0' ≤ c && c ≤ '7') || c == '_'

def isBinaryOrGap (c : Char) : Bool := c == '0' || c == '1' || c == '_'

/-- Parts of up to sixty after colons. -/
def isSixties (cs : List Char) : Bool :=
  ((String.ofList cs).splitOn ":").all fun part =>
    match part.toList with
    | [a] => isDecimal a
    | [a, b] => '0' ≤ a && a ≤ '5' && isDecimal b
    | _ => false

/-- Digits, and perhaps parts of up to sixty after colons. -/
def isDecimalInteger (cs : List Char) : Bool :=
  match cs.dropWhile isDecimalOrGap with
  | [] => true
  | ':' :: rest => isSixties rest
  | _ => false

/-- Words that are integers; a zero in front announces base two, eight or sixteen. -/
def isInteger (cs : List Char) : Bool :=
  match (splitSign cs).2 with
  | ['0'] => true
  | '0' :: 'b' :: ds => !ds.isEmpty && ds.all isBinaryOrGap
  | '0' :: 'x' :: ds => !ds.isEmpty && ds.all isHexOrGap
  | '0' :: ds => ds.all isOctalOrGap
  | d :: ds => isDecimal d && isDecimalInteger ds
  | [] => false

/-- An exponent, whose sign is not left out. -/
def isExponent (cs : List Char) : Bool :=
  match cs with
  | [] => true
  | e :: sign :: ds =>
    (e == 'e' || e == 'E') && (sign == '+' || sign == '-') && !ds.isEmpty && ds.all isDecimal
  | _ => false

/-- A point with digits before it, or only after it. -/
def isDecimalFraction (cs : List Char) : Bool :=
  let (_, body) := splitSign cs
  match body with
  | '.' :: d :: ds =>
    body == cs && isDecimal d && isExponent (ds.dropWhile isDecimalOrGap)
  | d :: ds =>
    isDecimal d &&
      match ds.dropWhile isDecimalOrGap with
      | '.' :: places => isExponent (places.dropWhile isDecimalOrGap)
      | _ => false
  | [] => false

/-- Parts of up to sixty after colons, the last of them with places after a point. -/
def isSixtiesFraction (cs : List Char) : Bool :=
  match (splitSign cs).2 with
  | d :: ds =>
    isDecimal d &&
      match (ds.dropWhile isDecimalOrGap).span (· != '.') with
      | (':' :: parts, '.' :: places) => isSixties parts && places.all isDecimalOrGap
      | _ => false
  | [] => false

def infinityWords : List String := [".inf", ".Inf", ".INF"]

def notNumberWords : List String := [".nan", ".NaN", ".NAN"]

def isFraction (cs : List Char) : Bool :=
  isDecimalFraction cs || isSixtiesFraction cs ||
    infinityWords.contains (String.ofList (splitSign cs).2) ||
    notNumberWords.contains (String.ofList cs)

/-- What kind of thing a node is. -/
inductive Tag where
  | null
  | bool
  | int
  | float
  | moment
  | text
  /-- The key under which the entries of other maps are merged into a map. -/
  | merge
  /-- The key of a default, which has no value of its own. -/
  | default
  | list
  | map
  | unknown
deriving DecidableEq, Repr

namespace Tag

/-- What a plain word is. -/
def ofPlain (word : String) : Tag :=
  let cs := word.toList
  if nullWords.contains word then .null
  else if trueWords.contains word || falseWords.contains word then .bool
  else if isFraction cs then .float
  else if isInteger cs then .int
  else if Moment.isPlain cs then .moment
  else if word == "<<" then .merge
  else if word == "=" then .default
  else .text

/-- Tags that the language itself names. -/
def core : List (String × Tag) :=
  [("null", .null), ("bool", .bool), ("int", .int), ("float", .float), ("timestamp", .moment),
   ("str", .text), ("seq", .list), ("map", .map), ("merge", .merge), ("value", .default)].map
    fun (name, tag) => (coreTag ++ name, tag)

def ofName (name : String) : Tag :=
  (core.lookup name).getD .unknown

/-- The tag that asks for what a plain word would be. -/
def plainName : String := "!"

def ofScalar (name : Option String) (isPlain : Bool) (word : String) : Tag :=
  match name with
  | none => if isPlain then ofPlain word else .text
  | some name => if name == plainName then ofPlain word else ofName name

def ofCollection (name : Option String) (usual : Tag) : Tag :=
  match name with
  | none => usual
  | some name => if name == plainName then usual else ofName name

end Tag

/-- An integer in a base, with the fault that arises if it is none. -/
def integerIn (base : Nat) (cs : List Char) : Except ReadError Int :=
  match readInt base cs with
  | .ok n => .ok n
  | .error (.tooManyDigits digits) => .error (.fault (.integerTextTooLong digits))
  | .error .malformed => .error (.fault (.noInteger base (Text.quoted (String.ofList cs))))

/-- A number written in parts of sixty, the last part first. -/
def sixties : List Int → Int
  | [] => 0
  | part :: parts => part + 60 * sixties parts

def unsignedInteger (cs : List Char) : Except ReadError Int :=
  match cs with
  | [] => .error (.fault .emptyNumber)
  | ['0'] => .ok 0
  | '0' :: 'b' :: ds => integerIn 2 ds
  | '0' :: 'x' :: ds => integerIn 16 ds
  | '0' :: _ => integerIn 8 cs
  | _ => do
    let parts ← ((String.ofList cs).splitOn ":").mapM fun part => integerIn 10 part.toList
    return sixties parts.reverse

def integer (cs : List Char) : Except ReadError Int := do
  let (negative, body) := splitSign (cs.filter (· != '_'))
  let n ← unsignedInteger body
  return if negative then -n else n

/-- The sum of parts of sixty, the last part first, each worth sixty times the one before it. -/
def floatSixties (worth sum : Float) : List Float → Float
  | [] => sum
  | part :: parts => floatSixties (worth * 60) (sum + part * worth) parts

/-- A double, with the fault that arises if it is none. -/
def double (part : String) : Except ReadError Float :=
  match readFloat? part.toList with
  | some x => .ok x
  | none => .error (.fault (.noDouble (Text.quoted part)))

def unsignedFraction (cs : List Char) : Except ReadError Float := do
  match ← ((String.ofList cs).splitOn ":").mapM double with
  | [x] => return x
  | parts => return floatSixties 1 0 parts.reverse

/-- The word for what is no number always means the same one. -/
def fraction (cs : List Char) : Except ReadError Number :=
  let word := (lowerChars cs).filter (· != '_')
  let (negative, body) := splitSign word
  if word.isEmpty then .error (.fault .emptyNumber)
  else if body == ".inf".toList then .ok (.float (if negative then -1.0 / 0.0 else 1.0 / 0.0))
  else if body == ".nan".toList then .ok (.nan 1)
  else do
    let x ← unsignedFraction body
    return .float (if negative then -x else x)

/-- A moment that the calendar and the clock have. -/
def moment (cs : List Char) : Except ReadError Moment :=
  match Moment.read? cs with
  | none => .error (.fault .noMoment)
  | some m =>
    match m.check with
    | .ok () => .ok m
    | .error e => .error (.fault (.badMoment e))

/-- The value of a scalar. -/
def scalarValue (tag : Tag) (word : String) : Except ReadError Value :=
  match tag with
  | .null => .ok .nil
  | .bool =>
    let lowered := String.ofList (lowerChars word.toList)
    if trueWords.contains lowered then .ok (.bool true)
    else if falseWords.contains lowered then .ok (.bool false)
    else .error (.fault (.noTruthValue (Text.quoted lowered)))
  | .int => .int <$> integer word.toList
  | .float => .number <$> fraction word.toList
  | .moment => .moment <$> moment word.toList
  | .text => .ok (.text word)
  | .merge | .default | .list | .map | .unknown => .error .malformed

end NodeScript.Yaml
