/-! What can be wrong with given data, and results that collect all that is wrong. -/

namespace NodeScript

inductive ProblemKind where
  | missing
  | notText
  /-- A text with a half of a pair, where a text is looked into. -/
  | halfText
  | notFlag
  /-- Something that could have been a flag, with a content that is none. -/
  | unclearFlag
  | notChoice (options : List String)
  | notList
  | notMap
  | notModel (name : String)
  | notInteger
  | fractionalInteger
  | notFinite
  | integerTooLarge
  | notNumber
  | refused (reason : String)
deriving DecidableEq, Repr

namespace ProblemKind

def code : ProblemKind → String
  | .missing => "missing"
  | .notText => "string_type"
  | .halfText => "string_unicode"
  | .notFlag => "bool_type"
  | .unclearFlag => "bool_parsing"
  | .notChoice _ => "literal_error"
  | .notList => "list_type"
  | .notMap => "dict_type"
  | .notModel _ => "model_type"
  | .notInteger => "int_type"
  | .fractionalInteger => "int_from_float"
  | .notFinite => "finite_number"
  | .integerTooLarge => "int_parsing_size"
  | .notNumber => "float_type"
  | .refused _ => "value_error"

/-- Quoted options with `or` before the last one. -/
def optionsText (options : List String) : String :=
  match (options.map fun o => s!"'{o}'").reverse with
  | [] => ""
  | [one] => one
  | last :: others => ", ".intercalate others.reverse ++ " or " ++ last

def message : ProblemKind → String
  | .missing => "Field required"
  | .notText => "Input should be a valid string"
  | .halfText => "Input should be a valid string, unable to parse raw data as a unicode string"
  | .notFlag => "Input should be a valid boolean"
  | .unclearFlag => "Input should be a valid boolean, unable to interpret input"
  | .notChoice options => s!"Input should be {optionsText options}"
  | .notList => "Input should be a valid list"
  | .notMap => "Input should be a valid dictionary"
  | .notModel name => s!"Input should be a valid dictionary or instance of {name}"
  | .notInteger => "Input should be a valid integer"
  | .fractionalInteger => "Input should be a valid integer, got a number with a fractional part"
  | .notFinite => "Input should be a finite number"
  | .integerTooLarge => "Unable to parse input string as an integer, exceeded maximum size"
  | .notNumber => "Input should be a valid number"
  | .refused reason => s!"Value error, {reason}"

end ProblemKind

/-- One thing that is wrong, and the way to it from the outermost data. -/
structure Problem where
  path : List String
  kind : ProblemKind
deriving DecidableEq, Repr

namespace Problem

def location (p : Problem) : String :=
  ".".intercalate p.path

/-- The problem as one line of a report. -/
def line (p : Problem) : String :=
  let place := if p.path.isEmpty then "<root>" else p.location
  s!"{place}: {p.kind.message}"

end Problem

/-- A value, or everything that is wrong with the data it was to be made from. -/
inductive Checked (α : Type) where
  | valid (a : α)
  | invalid (problems : List Problem)
deriving Repr

namespace Checked

variable {α β : Type}

def fail (kind : ProblemKind) : Checked α :=
  .invalid [⟨[], kind⟩]

def map (f : α → β) : Checked α → Checked β
  | .valid a => .valid (f a)
  | .invalid ps => .invalid ps

/-- Problems of both sides are kept, those of the left side first. -/
def seq : Checked (α → β) → Checked α → Checked β
  | .valid f, c => c.map f
  | .invalid ps, .valid _ => .invalid ps
  | .invalid ps, .invalid qs => .invalid (ps ++ qs)

instance : Applicative Checked where
  pure := .valid
  map := map
  seq f c := f.seq (c ())

/-- Says where the data lay. -/
def within (step : String) : Checked α → Checked α
  | .valid a => .valid a
  | .invalid ps => .invalid (ps.map fun p => { p with path := step :: p.path })

/-- A further condition on a value. -/
def require (c : Checked α) (condition : α → Bool) (kind : ProblemKind) : Checked α :=
  match c with
  | .valid a => if condition a then .valid a else fail kind
  | .invalid ps => .invalid ps

/-- All values of a list, or the problems of all its members. -/
def sequence : List (Checked α) → Checked (List α)
  | [] => .valid []
  | c :: cs => List.cons <$> c <*> sequence cs

end Checked

end NodeScript
