/-!
Arguments of a command: options with or without a value, and what stands between them. Options may
stand anywhere; two dashes end them.
-/

namespace NodeScript.Command

/-- An option of a command: its names, and whether a value follows it. -/
structure OptionSpec where
  long : String
  short : Option Char := none
  takesValue : Bool := true

/-- Arguments sorted out: option values by name, in order, and what is left. -/
structure Parsed where
  options : List (String × String) := []
  positional : List String := []

def Parsed.values (p : Parsed) (name : String) : List String :=
  (p.options.filter (·.1 == name)).map Prod.snd

/-- The last value given for an option. -/
def Parsed.value? (p : Parsed) (name : String) : Option String :=
  (p.values name).getLast?

/-- Short options may stand together behind one dash; the last of them may have its value behind it
or in the next argument. The answer tells whether the next argument was used. -/
def parseShort (specs : List OptionSpec) (next : Option String) :
    List Char → Option (List (String × String) × Bool)
  | [] => some ([], false)
  | c :: cs => do
    let spec ← specs.find? (·.short == some c)
    if spec.takesValue then
      if cs.isEmpty then return ([(spec.long, ← next)], true)
      else return ([(spec.long, String.ofList cs)], false)
    else
      let (more, used) ← parseShort specs next cs
      return ((spec.long, "") :: more, used)

/-- A long option, with its value behind an equals sign or in the next argument. -/
def parseLong (specs : List OptionSpec) (next : Option String) (body : List Char) :
    Option (List (String × String) × Bool) := do
  let (name, rest) := body.span (· != '=')
  let spec ← specs.find? (·.long == String.ofList name)
  match rest, spec.takesValue with
  | '=' :: value, true => return ([(spec.long, String.ofList value)], false)
  | _ :: _, false => none
  | _, true => return ([(spec.long, ← next)], true)
  | _, false => return ([(spec.long, "")], false)

/-- What an argument is: one that stands for itself, options with whether their value is the next
argument, or the mark after which there are no options. -/
inductive Reading where
  | positional
  | options (found : List (String × String)) (usesNext : Bool)
  | endOfOptions

def readArgument (specs : List OptionSpec) (next : Option String) (arg : String) : Option Reading :=
  match arg.toList with
  | ['-', '-'] => some .endOfOptions
  | '-' :: '-' :: body =>
    (parseLong specs next body).map fun (found, usesNext) => .options found usesNext
  | '-' :: c :: cs =>
    (parseShort specs next (c :: cs)).map fun (found, usesNext) => .options found usesNext
  | _ => some .positional

def Parsed.addPositional (p : Parsed) (arg : String) : Parsed :=
  { p with positional := arg :: p.positional }

def Parsed.addOptions (p : Parsed) (found : List (String × String)) : Parsed :=
  { p with options := found ++ p.options }

/-- Sorts arguments out; none if they are not understood. -/
def parseArguments (specs : List OptionSpec) : List String → Option Parsed
  | [] => some {}
  | arg :: rest =>
    match readArgument specs rest.head? arg with
    | none => none
    | some .endOfOptions => some { positional := rest }
    | some .positional => (parseArguments specs rest).map (·.addPositional arg)
    | some (.options found usesNext) =>
      match usesNext, rest with
      | true, _ :: rest => (parseArguments specs rest).map (·.addOptions found)
      | _, rest => (parseArguments specs rest).map (·.addOptions found)
termination_by structural args => args

end NodeScript.Command
