import NodeScript.Graph

/-! Settings of the engine: limits of a run, and conventions for graphs. -/

namespace NodeScript

structure Settings where
  /-- The most steps of one run. -/
  maxIterations : Nat := 10000
  /-- The deepest nesting of calls. -/
  maxCallDepth : Nat := 64
  functionPrefix : String := defaultFunctionPrefix
  /-- Whether an instruction of unknown type gives a warning. -/
  warnUnknownTypes : Bool := true
deriving DecidableEq, Repr

/-- What is wrong with given settings. -/
inductive SettingsError where
  | notMapping (kind : String)
  | unknownKeys (names : List String)
  | notPositive (name shown : String)
  | prefixNotText
  | flagNotBool
  /-- A file does not hold a readable document. -/
  | unreadable (path : String)
  | fileNotMapping (path : String)
  | engineNotMapping (path : String)
  | fault (f : Fault)
deriving DecidableEq, Repr

def SettingsError.message : SettingsError → String
  | .notMapping kind => s!"Expected a mapping, got {kind}"
  | .unknownKeys names => "Unknown config keys: " ++ ", ".intercalate names
  | .notPositive name shown => s!"'{name}' must be a positive integer, got {shown}"
  | .prefixNotText => "'function_prefix' must be a string"
  | .flagNotBool => "'warn_unknown_types' must be a boolean"
  | .unreadable path => s!"Invalid YAML in {path}: "
  | .fileNotMapping path => s!"{path}: expected a mapping at top level"
  | .engineNotMapping path => s!"{path}: 'engine' must be a mapping"
  | .fault f => f.message

namespace Settings

def names : List String :=
  ["max_iterations", "max_call_depth", "function_prefix", "warn_unknown_types"]

def isKnown : Key → Bool
  | .text s => names.contains s
  | _ => false

def text? : Key → Option String
  | .text s => some s
  | _ => none

/-- The least number among keys. -/
def leastNumber? : List Key → Option Key
  | [] => none
  | k :: ks =>
    match leastNumber? ks with
    | none => some k
    | some l =>
      match k.number?, l.number? with
      | some n, some m => if m.lt n then some l else some k
      | _, _ => some k

/-- Whether there is an order between two keys that are no texts. -/
def areOrdered : Key → Key → Bool
  | .moment m, .moment n => m.areOrdered n
  | k, l => k.number?.isSome && l.number?.isSome

/-- Why there is no order between two keys. -/
def unordered (h : Heap) : Key → Key → Fault
  | .moment m, .moment n => .unorderedMoments (m.isTime && n.isTime)
  | k, l => .unorderedKeys (h.fullKindName k.value) (h.fullKindName l.value)

/-- Unknown keys are listed in alphabetical order, which only texts have. -/
def unknownKeysError (h : Heap) (unknown : List Key) : SettingsError :=
  let texts := unknown.filterMap text?
  let others := unknown.filter (text? · |>.isNone)
  match texts, others with
  | _, [] => .unknownKeys (texts.mergeSort Text.comesFirst)
  | [], k :: ks =>
    match ks.find? (!areOrdered k ·) with
    | none => .fault (.unlistableKey (h.fullKindName ((leastNumber? (k :: ks)).getD k).value))
    | some l => .fault (unordered h k l)
  | _, k :: _ => .fault (.unorderedKeys "str" (h.fullKindName k.value))

/-- A positive integer; truth values are none. -/
def positive (h : Heap) (name : String) (absent : Nat) : Option Value → Except SettingsError Nat
  | none => .ok absent
  | some (.number (.int n)) =>
    if 1 ≤ n then .ok n.toNat else refuse (.int n)
  | some v => refuse v
where
  refuse (v : Value) : Except SettingsError Nat :=
    match h.display nestingLimit v with
    | .ok shown => .error (.notPositive name shown)
    | .error f => .error (.fault f)

/-- Settings from a dictionary in which every entry is optional. -/
def ofDict (h : Heap) (d : Dict Key Value) : Except SettingsError Settings := do
  let unknown := d.keys.filter (!isKnown ·)
  if !unknown.isEmpty then .error (unknownKeysError h unknown)
  else
    let given := d.fields
    let maxIterations ← positive h "max_iterations" 10000 (given "max_iterations")
    let maxCallDepth ← positive h "max_call_depth" 64 (given "max_call_depth")
    let functionPrefix ←
      match given "function_prefix" with
      | none => pure defaultFunctionPrefix
      | some (.text s) => pure s
      | some _ => .error .prefixNotText
    let warnUnknownTypes ←
      match given "warn_unknown_types" with
      | none => pure true
      | some (.bool b) => pure b
      | some _ => .error .flagNotBool
    return { maxIterations, maxCallDepth, functionPrefix, warnUnknownTypes }

def ofValue (h : Heap) (v : Value) : Except SettingsError Settings :=
  match h.map? v with
  | some d => ofDict h d
  | none => .error (.notMapping (h.kindName v))

end Settings

end NodeScript
