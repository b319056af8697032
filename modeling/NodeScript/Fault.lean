import NodeScript.Moment
import NodeScript.Text.Letter

/-! What can stop the evaluation of an instruction, and the wording of each cause. -/

namespace NodeScript

/-- The most decimal digits an integer may have where it is read from or written to a text. -/
def digitLimit : Nat := 4300

/-- The levels of nesting that there are. A table takes one up while it is read from its serial form,
written, shown or compared. -/
def nestingLimit : Nat := 980

/-- The levels that a call of a graph takes up while it lasts. -/
def callLevels : Nat := 7

/-- The levels that a list or a map takes up while it is read from a document. -/
def documentLevels : Nat := 2

/-- What is done with tables inside tables, or with graphs that call graphs. -/
inductive NestedWork where
  | call
  | readDocument
  | readList
  | readMap
  /-- Writes the serial form. -/
  | write
  /-- Writes the serial form on many lines. -/
  | writeLines
  | display
  | compare
deriving DecidableEq, Repr

/-- The ways in which a call of a function graph fails before it starts. -/
inductive CallError where
  | unavailable
  | noLookup (key : String)
  | notFound (key : String)
  | noNodes (key : String)
  | invalidGraph (key : String) (problems : Nat)
  | notFunction (key : String)
  | tooDeep (limit : Nat) (key : String)
deriving DecidableEq, Repr

/-- The ways in which the block structure of a graph fails while it runs. -/
inductive StructuralError where
  | missingEnd (terminator opener : String) (index : Nat)
  | missingElseOrEnd (index : Nat)
  | noActiveLoop (terminator : String) (index : Int)
  | wrongLoop (terminator : String) (index : Int) (expected found : String)
deriving DecidableEq, Repr

inductive Fault where
  /-- A text writes an integer with this many digits, more than the limit. -/
  | integerTextTooLong (digits : Nat)
  /-- An integer needs more digits than the limit. -/
  | integerTooLong
  /-- An integer is beyond the largest double. -/
  | integerTooLarge
  /-- The quotient of two integers is beyond the largest double. -/
  | quotientTooLarge
  /-- A value that contains itself has no serial form. -/
  | circular
  /-- Not enough levels of nesting are left. -/
  | tooDeep (work : NestedWork)
  /-- A text with a half of a pair cannot be turned into bytes. -/
  | noBytes (halves : Text.HalfRun)
  /-- An escape in a document is no character. -/
  | noCharacter (code : Nat)
  /-- A word in a document is no integer in the base that it announces. -/
  | noInteger (base : Nat) (shown : String)
  /-- A word in a document that is said to be a double is none. -/
  | noDouble (shown : String)
  /-- A word in a document that is said to be a truth value is none. -/
  | noTruthValue (shown : String)
  /-- An empty word in a document is said to be a number. -/
  | emptyNumber
  /-- A moment in a document is not on the calendar or the clock. -/
  | badMoment (error : MomentError)
  /-- A word in a document that is said to be a moment is none. -/
  | noMoment
  /-- A map with a moment as a key has no serial form. -/
  | momentMember (type : String)
  /-- Something other than a map stands where entries are merged into a map. -/
  | notMapping (type : String)
  /-- A lookup gave something that is no graph. -/
  | notGraph (type : String)
  /-- A base for reading integers is itself no integer. -/
  | baseNotInteger (type : String)
  /-- Names cannot be listed since the first of them is no text. -/
  | unlistableKey (type : String)
  /-- Names cannot be listed in order since they are of different types. -/
  | unorderedKeys (type other : String)
  /-- Names cannot be listed in order since they are moments of different kinds, or times only some
  of which have offsets. -/
  | unorderedMoments (areTimes : Bool)
  /-- A loop over an array starts before the array. -/
  | indexOutOfRange
  | call (error : CallError)
  | structural (error : StructuralError)
deriving DecidableEq, Repr

def CallError.message : CallError → String
  | .unavailable => "Subgraph calls are not available in this context"
  | .noLookup key => s!"Cannot call \"{key}\": no graph lookup configured."
  | .notFound key => s!"Function graph \"{key}\" not found."
  | .noNodes key => s!"Invalid node data for function graph \"{key}\"."
  | .invalidGraph key problems =>
    s!"Invalid node data for function graph \"{key}\": {problems} error(s)"
  | .notFunction key => s!"Graph \"{key}\" is not a function graph."
  | .tooDeep limit key => s!"Maximum call depth ({limit}) exceeded calling \"{key}\"."

def StructuralError.message : StructuralError → String
  | .missingEnd terminator opener index =>
    s!"Missing matching '{terminator}' for '{opener}' at index {index}"
  | .missingElseOrEnd index => s!"Missing matching 'else' or 'endIf' for 'if' at index {index}"
  | .noActiveLoop terminator index =>
    s!"'{terminator}' encountered at index {index} without an active loop."
  | .wrongLoop terminator index expected found =>
    s!"Mismatched '{terminator}' at index {index}. Expected {expected} state, found {found}."

def NestedWork.phrase : NestedWork → String
  | .call => " while calling a Python object"
  | .readDocument => ""
  | .readList => " while decoding a JSON array from a unicode string"
  | .readMap => " while decoding a JSON object from a unicode string"
  | .write => " while encoding a JSON object"
  | .writeLines => " while calling a Python object"
  | .display => " while getting the repr of an object"
  | .compare => " in comparison"

/-- The halves of a text, and where in it they stand. -/
def Text.HalfRun.phrase (halves : Text.HalfRun) : String :=
  let digits := String.ofList (Text.hexDigits 4 halves.code)
  if halves.count = 1 then s!"character '\\u{digits}' in position {halves.start}"
  else s!"characters in position {halves.start}-{halves.start + halves.count - 1}"

def digitLimitText : String :=
  s!"Exceeds the limit ({digitLimit} digits) for integer string conversion"

def digitLimitAdvice : String :=
  "; use sys.set_int_max_str_digits() to increase the limit"

def Fault.message : Fault → String
  | .integerTextTooLong digits => s!"{digitLimitText}: value has {digits} digits{digitLimitAdvice}"
  | .integerTooLong => digitLimitText ++ digitLimitAdvice
  | .integerTooLarge => "int too large to convert to float"
  | .quotientTooLarge => "integer division result too large for a float"
  | .circular => "Circular reference detected"
  | .tooDeep work => s!"maximum recursion depth exceeded{work.phrase}"
  | .noBytes halves =>
    s!"'utf-8' codec can't encode {halves.phrase}: surrogates not allowed"
  | .noCharacter code =>
    if code < 0x80000000 then "chr() arg not in range(0x110000)"
    else "Python int too large to convert to C int"
  | .noInteger base shown => s!"invalid literal for int() with base {base}: {shown}"
  | .noDouble shown => s!"could not convert string to float: {shown}"
  | .noTruthValue shown => shown
  | .emptyNumber => "string index out of range"
  | .badMoment error => error.message
  | .noMoment => "'NoneType' object has no attribute 'groupdict'"
  | .momentMember type => s!"keys must be str, int, float, bool or None, not {type}"
  | .notMapping type => s!"'{type}' object is not a mapping"
  | .notGraph type => s!"'{type}' object has no attribute 'is_callable'"
  | .baseNotInteger type => s!"'{type}' object cannot be interpreted as an integer"
  | .unlistableKey type => s!"sequence item 0: expected str instance, {type} found"
  | .unorderedKeys type other => s!"'<' not supported between instances of '{type}' and '{other}'"
  | .unorderedMoments areTimes =>
    if areTimes then "can't compare offset-naive and offset-aware datetimes"
    else "can't compare datetime.datetime to datetime.date"
  | .indexOutOfRange => "list index out of range"
  | .call error => error.message
  | .structural error => error.message

end NodeScript
