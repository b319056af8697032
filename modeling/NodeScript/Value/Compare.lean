import NodeScript.Value.Literal

/-! Types, truth, equality and order of values. -/

namespace NodeScript

/-- The types of the scripting language. -/
inductive ScriptType where
  | nil
  | boolean
  | number
  | string
  | vector3
  | table
  /-- What the language has no type of its own for. -/
  | userdata
deriving DecidableEq, Repr

def ScriptType.name : ScriptType → String
  | .nil => "nil"
  | .boolean => "boolean"
  | .number => "number"
  | .string => "string"
  | .vector3 => "vector3"
  | .table => "table"
  | .userdata => "userdata"

namespace Value

def type : Value → ScriptType
  | .nil => .nil
  | .bool _ => .boolean
  | .number _ => .number
  | .text _ => .string
  | .vector _ => .vector3
  | .moment _ => .userdata
  | .table _ => .table

/-- Only nil and false are not true. -/
def truthy : Value → Bool
  | .nil => false
  | .bool b => b
  | _ => true

/-- The number a value counts as inside a table, where truth values are zero and one. -/
def number? : Value → Option Number
  | .number n => some n
  | .bool b => some (.int (if b then 1 else 0))
  | _ => none

end Value

def Vector3.same (v w : Vector3) : Bool :=
  v.x.alike w.x && v.y.alike w.y && v.z.alike w.z

namespace Heap

/-- The name that messages give to the kind of a value. -/
def kindName (h : Heap) : Value → String
  | .nil => "NoneType"
  | .bool _ => "bool"
  | .number (.int _) => "int"
  | .number (.float _) | .number (.nan _) => "float"
  | .text _ => "str"
  | .vector _ => "Vector3"
  | .moment m => m.kindName
  | .table a =>
    match h.get a with
    | .array _ => "list"
    | .map _ => "dict"

/-- The name of the kind with the family that moments belong to. -/
def fullKindName (h : Heap) : Value → String
  | .moment m => "datetime." ++ m.kindName
  | v => h.kindName v

/-- The number that a value is or writes, in a base that is any value; nil stands for no base. -/
def toNumberWithBase (h : Heap) (v base : Value) : Except Fault (Option Number) :=
  match base, v with
  | .nil, v => .ok v.toNumber?
  | .number (.int n), v => .ok (v.toNumberIn? n)
  | .bool b, v => .ok (v.toNumberIn? (if b then 1 else 0))
  | base, .text s =>
    if (Text.trimChars s.toList).isEmpty then .ok none
    else .error (.baseNotInteger (h.kindName base))
  | _, _ => .ok none

/-- Pairwise agreement of two lists, decided from the left. -/
def allSame (same : Value → Value → Except Fault Bool) :
    List Value → List Value → Except Fault Bool
  | [], [] => .ok true
  | v :: vs, w :: ws => do
    if ← same v w then allSame same vs ws else return false
  | _, _ => .ok false

/-- Whether every entry has its like in a map. -/
def allMatched (same : Value → Value → Except Fault Bool) (other : Dict Key Value) :
    List (Key × Value) → Except Fault Bool
  | [] => .ok true
  | (k, v) :: rest =>
    match other.get? k with
    | none => .ok false
    | some w => do
      if ← same v w then allMatched same other rest else return false

/-- Equality of items inside tables, where truth values equal zero and one. A table equals itself,
and any table that has equal items in the same places or equal entries in any order. There is `room`
for so many tables inside each other, so that comparing tables which contain themselves ends. -/
def same (h : Heap) : (room : Nat) → Value → Value → Except Fault Bool
  | room, .table a, .table b =>
    if a = b then .ok true
    else
      match room with
      | 0 => .error (.tooDeep .compare)
      | room + 1 =>
        match h.get a, h.get b with
        | .array vs, .array ws =>
          if vs.length = ws.length then allSame (h.same room) vs ws else .ok false
        | .map vs, .map ws =>
          if vs.size = ws.size then allMatched (h.same room) ws vs.entries else .ok false
        | _, _ => .ok false
  | _, .nil, .nil => .ok true
  | _, .text s, .text t => .ok (s == t)
  | _, .vector v, .vector w => .ok (v.same w)
  | _, .moment m, .moment n => .ok (m.same n)
  | _, v, w =>
    match v.number?, w.number? with
    | some n, some m => .ok (n.alike m)
    | _, _ => .ok false

/-- Equality of values as scripts see it: unlike inside tables, truth values equal no numbers, and
what is no number does not even equal itself. -/
def equal (h : Heap) (room : Nat) (v w : Value) : Except Fault Bool :=
  match v, w with
  | .number n, .number m => .ok (n.eqv m)
  | _, _ => if v.type = w.type then h.same room v w else .ok false

end Heap

/-- The operators of conditions. Any other operator compares nothing and is never met. -/
inductive Comparison where
  | isTrue
  | isFalse
  | isNil
  | isNotNil
  | equal
  | notEqual
  | greater
  | less
  | greaterOrEqual
  | lessOrEqual
  | unknown (name : String)
deriving DecidableEq, Repr

namespace Comparison

def ofName : String → Comparison
  | "is true" => .isTrue
  | "is false" => .isFalse
  | "is nil" => .isNil
  | "is not nil" => .isNotNil
  | "==" => .equal
  | "~=" => .notEqual
  | ">" => .greater
  | "<" => .less
  | ">=" => .greaterOrEqual
  | "<=" => .lessOrEqual
  | name => .unknown name

/-- Order holds only between values that are or write numbers. -/
def ordered (test : Number → Number → Bool) (lhs rhs : Value) : Bool :=
  match lhs.toNumber?, rhs.toNumber? with
  | some n, some m => test n m
  | _, _ => false

def holds (h : Heap) (room : Nat) (lhs : Value) (op : Comparison) (rhs : Value) :
    Except Fault Bool :=
  match op with
  | .isTrue => .ok lhs.truthy
  | .isFalse => .ok (!lhs.truthy)
  | .isNil => .ok (lhs == .nil)
  | .isNotNil => .ok (lhs != .nil)
  | .equal => h.equal room lhs rhs
  | .notEqual => return !(← h.equal room lhs rhs)
  | .greater => .ok (ordered (fun n m => m.lt n) lhs rhs)
  | .less => .ok (ordered (fun n m => n.lt m) lhs rhs)
  | .greaterOrEqual => .ok (ordered (fun n m => m.le n) lhs rhs)
  | .lessOrEqual => .ok (ordered (fun n m => n.le m) lhs rhs)
  | .unknown _ => .ok false

end Comparison

end NodeScript
