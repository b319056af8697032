import NodeScript.Leaf.Basic

/-! Tables: making them, and reading and writing their entries. Arrays count from one. -/

namespace NodeScript

inductive TableType where
  | map
  | array
deriving DecidableEq, Repr

def TableType.options : List (String × TableType) :=
  [("map", .map), ("array", .array)]

def TableType.empty : TableType → Table
  | .map => .map {}
  | .array => .array []

/-- Whether a key is a text, a number, or the content of a variable. -/
inductive KeyType where
  | literal
  | numberLiteral
  | variable
deriving DecidableEq, Repr

def KeyType.options : List (String × KeyType) :=
  [("literal", .literal), ("number_literal", .numberLiteral), ("variable", .variable)]

def notTable (name : String) : String :=
  s!"Variable \"{name}\" is not a table."

def invalidTableName (name : Option String) : String :=
  s!"Invalid table variable name: {nameText name}"

def invalidResultName (name : Option String) : String :=
  s!"Invalid result variable name: {nameText name}"

/-- The key that an instruction means, or why there is none. -/
def resolveKey (scope : Scope) (type : KeyType) (given : Value) : Eval (Except String Key) :=
  match type with
  | .variable =>
    match validNameOf? given with
    | none => do
      let shown ← Eval.plain given
      return .error s!"Invalid key variable name: {shown}"
    | some name =>
      match scope.get name with
      | .text s => return .ok (.text s)
      | .number n => return .ok (.number n)
      | v => return .ok (.text (← Eval.plain v))
  | .numberLiteral => do
    match ← Eval.toNumber? given with
    | some n => return .ok (.number n)
    | none =>
      let shown ← Eval.plain given
      return .error s!"Invalid number literal key: \"{shown}\""
  | .literal =>
    match given with
    | .nil => return .ok (.text "")
    | v => return .ok (.text (← Eval.plain v))

/-- The value that an instruction means, or why there is none. -/
def resolveValue (scope : Scope) (kind : SourceKind) (given : Value) :
    Eval (Except String Value) :=
  match kind with
  | .variable =>
    match validNameOf? given with
    | none => do
      let shown ← Eval.plain given
      return .error s!"Invalid value variable name: {shown}"
    | some name => return .ok (scope.get name)
  | .literal => return .ok (← Eval.literal given)

/-- The place from zero on that a key means in an array. A number must be within the doubles. -/
def arraySlot (k : Key) : Except Fault (Option Int) :=
  match k with
  | .number n => do
    match (Number.float (← n.toFloat)).whole? with
    | some _ => return (n.truncate?.map (· - 1))
    | none => return none
  | _ => .ok none

namespace Table

def size : Table → Nat
  | .array items => items.length
  | .map entries => entries.size

/-- The entry under a key. -/
def get? : Table → Key → Except Fault (Option Value)
  | .array items, k => do
    match ← arraySlot k with
    | some slot => return if slot < 0 then none else items[slot.toNat]?
    | none => return none
  | .map entries, k => .ok (entries.get? k)

/-- Sets the entry under a key. An array takes a key up to one past its end; for any other key the
answer is none. -/
def put? : Table → Key → Value → Except Fault (Option Table)
  | .array items, k, v => do
    match ← arraySlot k with
    | some slot =>
      if slot < 0 || items.length < slot then return none
      else if slot = items.length then return some (.array (items ++ [v]))
      else return some (.array (items.set slot.toNat v))
    | none => return none
  | .map entries, k, v => .ok (some (.map (entries.insert k v)))

end Table

structure CreateTable where
  variableName : Option String
  tableType : TableType
  initialValue : Value

namespace CreateTable

def decoder : Decoder CreateTable :=
  CreateTable.mk
    <$> .textOrNil ⟨"variableName", "variable_name"⟩
    <*> .optional ⟨"tableType", "table_type"⟩ .map (Check.choice TableType.options)
    <*> .any ⟨"initialValue", "initial_value"⟩

def eval (c : CreateTable) (scope : Scope) : Eval Effect :=
  match validName? c.variableName with
  | none =>
    return .refusal scope "createTable" "Invalid variable name"
      [("variable_name", .textOrNil c.variableName)]
  | some name => do
    match ← Eval.literal c.initialValue with
    | .table a => return success name (.table a)
    | .nil => return success name (← Eval.alloc c.tableType.empty)
    | _ =>
      let shown ← Eval.display c.initialValue
      return .refusal scope "createTable" s!"Initial value is not a table: {shown}"
where
  success (name : String) (v : Value) : Effect :=
    { binding := some (name, v)
      output := some
        [("action", .text "createTable"), ("status", .text "success"),
         ("variable_name", .text name)] }

end CreateTable

structure SetTableValue where
  tableVariable : Option String
  keyType : KeyType
  keyValue : Value
  valueType : SourceKind
  valueSource : Value

namespace SetTableValue

def decoder : Decoder SetTableValue :=
  SetTableValue.mk
    <$> .textOrNil ⟨"tableVariable", "table_variable"⟩
    <*> .optional ⟨"keyType", "key_type"⟩ .literal (Check.choice KeyType.options)
    <*> .any ⟨"keyValue", "key_value"⟩
    <*> .sourceKind ⟨"valueType", "value_type"⟩
    <*> .any ⟨"valueSource", "value_source"⟩

/-- Writes an entry of a known table. -/
def write (c : SetTableValue) (scope : Scope) (name : String) (a : Address) :
    Eval Effect := do
  match ← resolveKey scope c.keyType c.keyValue with
  | .error message =>
    return .refusal scope "setTableValue" s!"Error processing key: {message}"
  | .ok key =>
    match ← resolveValue scope c.valueType c.valueSource with
    | .error message => return .refusal scope "setTableValue" message
    | .ok v =>
      let table := (← get).heap.get a
      match ← Eval.lift (table.put? key v) with
      | none =>
        let shown ← Eval.display key.value
        return .refusal scope "setTableValue"
          s!"Key {shown} is outside array bounds 1..{table.size + 1}"
      | some changed =>
        return {
          write := some (a, changed)
          output := some
            [("action", .text "setTableValue"), ("status", .text "success"), ("table", .text name),
             ("key_used", .value key.value), ("value_set", .value v)] }

def eval (c : SetTableValue) (scope : Scope) : Eval Effect :=
  match validName? c.tableVariable with
  | none => return .refusal scope "setTableValue" (invalidTableName c.tableVariable)
  | some name =>
    match scope.get name with
    | .table a => c.write scope name a
    | _ => return .refusal scope "setTableValue" (notTable name)

end SetTableValue

structure GetTableValue where
  tableVariable : Option String
  keyType : KeyType
  keyValue : Value
  resultVariable : Option String
  defaultValue : Value

namespace GetTableValue

def decoder : Decoder GetTableValue :=
  GetTableValue.mk
    <$> .textOrNil ⟨"tableVariable", "table_variable"⟩
    <*> .optional ⟨"keyType", "key_type"⟩ .literal (Check.choice KeyType.options)
    <*> .any ⟨"keyValue", "key_value"⟩
    <*> .textOrNil ⟨"resultVariable", "result_variable"⟩
    <*> .any ⟨"defaultValue", "default_value"⟩

/-- How a look-up went. -/
structure Outcome where
  status : String
  message : String
  key : Value
  value : Value

/-- Looks an entry up; the given value stands in for a missing one. -/
def lookUp (c : GetTableValue) (scope : Scope) (name : String) (absent : Value) :
    Eval Outcome := do
  match ← Eval.table? (scope.get name) with
  | none => return ⟨"warning", s!"{notTable name} Used default value.", .nil, absent⟩
  | some (_, table) =>
    match ← resolveKey scope c.keyType c.keyValue with
    | .error message => return ⟨"error", s!"Error getting value: {message}", .nil, absent⟩
    | .ok key =>
      match ← Eval.lift (table.get? key) with
      | some v => return ⟨"success", "", key.value, v⟩
      | none =>
        let shown ← Eval.plain key.value
        return ⟨"warning_not_found", s!"Key \"{shown}\" not found. Used default value.", key.value,
          absent⟩

def eval (c : GetTableValue) (scope : Scope) : Eval Effect :=
  match validName? c.tableVariable, validName? c.resultVariable with
  | none, _ => return .refusal scope "getTableValue" (invalidTableName c.tableVariable)
  | _, none => return .refusal scope "getTableValue" (invalidResultName c.resultVariable)
  | some name, some result => do
    let absent ← Eval.literal c.defaultValue
    let found ← c.lookUp scope name absent
    return {
      binding := some (result, found.value)
      output := some
        [("action", .text "getTableValue"), ("status", .text found.status),
         ("message", .text found.message), ("table", .text name), ("key_used", .value found.key),
         ("value_retrieved", .value found.value), ("result_variable", .text result)] }

end GetTableValue

structure InsertIntoTable where
  tableVariable : Option String
  valueType : SourceKind
  valueSource : Value

namespace InsertIntoTable

def decoder : Decoder InsertIntoTable :=
  InsertIntoTable.mk
    <$> .textOrNil ⟨"tableVariable", "table_variable"⟩
    <*> .sourceKind ⟨"valueType", "value_type"⟩
    <*> .any ⟨"valueSource", "value_source"⟩

/-- Adds an item at the end of an array. -/
def eval (c : InsertIntoTable) (scope : Scope) : Eval Effect :=
  match validName? c.tableVariable with
  | none => return .refusal scope "insertIntoTable" (invalidTableName c.tableVariable)
  | some name => do
    match ← Eval.table? (scope.get name) with
    | some (a, .array items) =>
      match ← resolveValue scope c.valueType c.valueSource with
      | .error message => return .refusal scope "insertIntoTable" message
      | .ok v =>
        return {
          write := some (a, .array (items ++ [v]))
          output := some
            [("action", .text "insertIntoTable"), ("status", .text "success"),
             ("table", .text name), ("value_inserted", .value v),
             ("new_length", .int (items.length + 1))] }
    | _ =>
      return .refusal scope "insertIntoTable"
        s!"Variable \"{name}\" is not an array (required for simulation)."

end InsertIntoTable

structure GetTableLength where
  tableVariable : Option String
  resultVariable : Option String

namespace GetTableLength

def decoder : Decoder GetTableLength :=
  GetTableLength.mk
    <$> .textOrNil ⟨"tableVariable", "table_variable"⟩
    <*> .textOrNil ⟨"resultVariable", "result_variable"⟩

/-- The length, with a status and a message. -/
def measure (name : String) : Option Table → Nat × String × String
  | some (.array items) => (items.length, "success", "")
  | some (.map entries) =>
    (entries.size, "warning_simulation",
      s!"Variable \"{name}\" is a map, not an array. Simulated length ({entries.size}) by counting keys.")
  | none => (0, "warning_type", s!"{notTable name} Length is 0.")

def eval (c : GetTableLength) (scope : Scope) : Eval Effect :=
  match validName? c.tableVariable, validName? c.resultVariable with
  | none, _ => return .refusal scope "getTableLength" (invalidTableName c.tableVariable)
  | _, none => return .refusal scope "getTableLength" (invalidResultName c.resultVariable)
  | some name, some result => do
    let table? ← Eval.table? (scope.get name)
    let (length, status, message) := measure name (table?.map Prod.snd)
    return {
      binding := some (result, .int length)
      output := some
        [("action", .text "getTableLength"), ("status", .text status), ("message", .text message),
         ("table", .text name), ("length", .int length), ("result_variable", .text result)] }

end GetTableLength

end NodeScript
