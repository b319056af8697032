import NodeScript.Control

/-!
Blocks in flat instruction lists. An opener belongs to the first terminator of its kind at the same
nesting depth; only type tags are compared, so each function works on the list of tags.
-/

namespace NodeScript

/-- What an instruction is for block matching; none for a plain instruction. -/
abbrev Mark := Option Control

namespace Block

/-- How many marks precede the terminator that closes a block of this kind, `depth` blocks of the
kind being open inside it. -/
def closing? (kind : BlockKind) : (depth : Nat) → List Mark → Option Nat
  | _, [] => none
  | depth, m :: ms =>
    if m = some kind.opener then (closing? kind (depth + 1) ms).map (· + 1)
    else if m = some kind.terminator then
      match depth with
      | 0 => some 0
      | depth + 1 => (closing? kind depth ms).map (· + 1)
    else (closing? kind depth ms).map (· + 1)

/-- How many marks precede the `else` or the end of the branch around them. -/
def elseOrClosing? : (depth : Nat) → List Mark → Option Nat
  | _, [] => none
  | depth, m :: ms =>
    if m = some .branch then (elseOrClosing? (depth + 1) ms).map (· + 1)
    else if m = some .otherwise then
      match depth with
      | 0 => some 0
      | depth + 1 => (elseOrClosing? (depth + 1) ms).map (· + 1)
    else if m = some .endBranch then
      match depth with
      | 0 => some 0
      | depth + 1 => (elseOrClosing? depth ms).map (· + 1)
    else (elseOrClosing? depth ms).map (· + 1)

/-- The index of the terminator of the block whose body follows index `start`. -/
def endAfter? (marks : List Mark) (kind : BlockKind) (start : Nat) : Option Nat :=
  (closing? kind 0 (marks.drop (start + 1))).map (· + (start + 1))

/-- The index of the `else` or of the end that belongs to the `if` at `start`. -/
def elseOrEndAfter? (marks : List Mark) (start : Nat) : Option Nat :=
  match marks[start]? with
  | some (some .branch) =>
    (elseOrClosing? 0 (marks.drop (start + 1))).map (· + (start + 1))
  | _ => none

/-- What is wrong with a query for the end of a block. -/
inductive QueryError where
  | notTerminator (control : Control)
  | unknownTag (tag : String)
  | outOfRange
deriving DecidableEq, Repr

def QueryError.message : QueryError → String
  | .notTerminator control => s!"'ControlType.{control.constant}' is not a block terminator"
  | .unknownTag tag => s!"'{tag}' is not a valid ControlType"
  | .outOfRange => "list index out of range"

/-- The index at which a block is closed by the given terminator, seen from an index that may count
from the end of the list; the answer counts the same way. -/
def queryEnd (marks : List Mark) (start : Int) (tag : String) : Except QueryError (Option Int) :=
  match Control.ofTag? tag with
  | none => .error (.unknownTag tag)
  | some control =>
    match control.closes? with
    | none => .error (.notTerminator control)
    | some kind =>
      let first := start + 1
      if first + marks.length < 0 then .error .outOfRange
      else
        let seen :=
          if first < 0 then marks.drop (first + marks.length).toNat ++ marks
          else marks.drop first.toNat
        .ok ((closing? kind 0 seen).map fun offset => first + offset)

def queryElseOrEnd (marks : List Mark) (start : Int) : Option Nat :=
  if start < 0 then none else elseOrEndAfter? marks start.toNat

/-- The indices, from `index` on, of the terminators and `else` marks that close nothing, given the
kinds of the blocks open so far, innermost first. -/
def strays : (opened : List BlockKind) → (index : Nat) → List Mark → List Nat
  | _, _, [] => []
  | opened, index, none :: ms => strays opened (index + 1) ms
  | opened, index, some control :: ms =>
    match control.opens?, control.closes? with
    | some kind, _ => strays (kind :: opened) (index + 1) ms
    | none, some kind =>
      match opened with
      | top :: rest =>
        if top = kind then strays rest (index + 1) ms
        else index :: strays opened (index + 1) ms
      | [] => index :: strays opened (index + 1) ms
    | none, none =>
      if control = .otherwise && opened.head? != some .branch
      then index :: strays opened (index + 1) ms
      else strays opened (index + 1) ms

/-- The indices of terminators and `else` marks that close no open block. -/
def unmatched (marks : List Mark) : List Nat :=
  strays [] 0 marks

def startsBody (m : Mark) : Bool :=
  match m with
  | some control => control.opens?.isSome || control = .otherwise
  | none => false

def endsBody (m : Mark) : Bool :=
  match m with
  | some control => control.closes?.isSome || control = .otherwise
  | none => false

/-- The nesting depth at which each instruction is displayed: openers, `else` and terminators stand
at the depth around their block. -/
def depths : (depth : Nat) → List Mark → List Nat
  | _, [] => []
  | depth, m :: ms =>
    let own := if endsBody m then depth - 1 else depth
    own :: depths (if startsBody m then own + 1 else own) ms

end Block

end NodeScript
