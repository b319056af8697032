import NodeScript.Yaml.Scalar
import NodeScript.Yaml.Token.Lexer

/-!
Nodes: the scalars, lists and maps of a document, as they are written. A node is known by its number,
so that an alias can stand for a node, even for one around it.
-/

namespace NodeScript.Yaml

abbrev NodeId := Nat

inductive Node where
  | scalar (tag : Tag) (text : String)
  | list (tag : Tag) (items : List NodeId)
  | map (tag : Tag) (entries : List (NodeId × NodeId))
deriving DecidableEq, Repr

instance : Inhabited Node := ⟨.scalar .null ""⟩

/-- The nodes read so far, the names given to some of them, and the tokens to come. -/
structure Composer where
  tokens : List Token
  /-- The levels of nesting that the collections around the next token have left. -/
  room : Nat := nestingLimit
  nodes : Array Node := #[]
  anchors : List (String × NodeId) := []

/-- Steps that read nodes from tokens. -/
abbrev Compose := EStateM ReadError Composer

namespace Compose

def peek : Compose Token :=
  return (← get).tokens.headD .streamEnd

def skip : Compose Unit :=
  modify fun s => { s with tokens := s.tokens.tail }

/-- Fails because of the next token. -/
def unexpected {α : Type} : Compose α := do
  throw (← peek).error

def expect (t : Token) : Compose Unit := do
  if (← peek) = t then skip else unexpected

def add (n : Node) : Compose NodeId := do
  let id := (← get).nodes.size
  modify fun s => { s with nodes := s.nodes.push n }
  return id

def put (id : NodeId) (n : Node) : Compose Unit :=
  modify fun s => { s with nodes := s.nodes.setIfInBounds id n }

/-- A scalar that is left out. -/
def absent : Compose NodeId :=
  add (.scalar .null "")

/-- Gives a node a name; no name is given twice. -/
def name (anchor : Option String) (id : NodeId) : Compose Unit := do
  match anchor with
  | none => return
  | some a =>
    if (← get).anchors.any (·.1 == a) then throw .malformed
    modify fun s => { s with anchors := (a, id) :: s.anchors }

def named (a : String) : Compose NodeId := do
  match (← get).anchors.lookup a with
  | some id => return id
  | none => throw .malformed

/-- Reads what is inside a collection. -/
def inside {α : Type} (read : Compose α) : Compose α := do
  let room := (← get).room
  if room < documentLevels then throw (.fault (.tooDeep .readDocument))
  modify fun s => { s with room := room - documentLevels }
  let a ← read
  modify fun s => { s with room }
  return a

/-- The anchor and the tag in front of a node, in either order. -/
def properties : Compose (Option String × Option String) := do
  match ← peek with
  | .anchor a =>
    skip
    match ← peek with
    | .tag t => skip; return (some a, some t)
    | _ => return (some a, none)
  | .tag t =>
    skip
    match ← peek with
    | .anchor a => skip; return (some a, some t)
    | _ => return (none, some t)
  | _ => return (none, none)

/-- Where a node stands decides which collections it can be. -/
inductive Place where
  | flow
  | block
  /-- In a map whose lists need not be indented. -/
  | entry
deriving DecidableEq, Repr

/-- A node may be empty if it has properties. -/
def empty (anchor tag : Option String) : Compose NodeId := do
  if anchor.isNone && tag.isNone then unexpected
  else
    let id ← add (.scalar (.ofScalar tag true "") "")
    name anchor id
    return id

mutual

/-- Reads a node. -/
def node : (fuel : Nat) → Place → Compose NodeId
  | 0, _ => throw .malformed
  | fuel + 1, place => do
    match ← peek with
    | .alias a => skip; named a
    | _ =>
      let (anchor, tag) ← properties
      content fuel place anchor tag
termination_by structural fuel => fuel

/-- Reads what stands after the properties of a node. A collection has its name before its content
is read, so that it can stand inside itself. -/
def content : (fuel : Nat) → Place → (anchor tag : Option String) → Compose NodeId
  | 0, _, _, _ => throw .malformed
  | fuel + 1, place, anchor, tag => do
    match place, ← peek with
    | _, .scalar isPlain text =>
      skip
      let id ← add (.scalar (.ofScalar tag isPlain text) text)
      name anchor id
      return id
    | _, .flowListStart =>
      skip
      let id ← add default
      name anchor id
      put id (.list (.ofCollection tag .list) (← inside (flowItems fuel true)))
      return id
    | _, .flowMapStart =>
      skip
      let id ← add default
      name anchor id
      put id (.map (.ofCollection tag .map) (← inside (flowEntries fuel true)))
      return id
    | .entry, .blockEntry =>
      let id ← add default
      name anchor id
      put id (.list (.ofCollection tag .list) (← inside (looseItems fuel)))
      return id
    | .block, .blockListStart | .entry, .blockListStart =>
      skip
      let id ← add default
      name anchor id
      put id (.list (.ofCollection tag .list) (← inside (blockItems fuel)))
      return id
    | .block, .blockMapStart | .entry, .blockMapStart =>
      skip
      let id ← add default
      name anchor id
      put id (.map (.ofCollection tag .map) (← inside (blockEntries fuel)))
      return id
    | _, _ => empty anchor tag
termination_by structural fuel => fuel

/-- Reads a node unless one of some tokens comes next, before which it is left out. -/
def nodeUnless : (fuel : Nat) → Place → (stops : List Token) → Compose NodeId
  | 0, _, _ => throw .malformed
  | fuel + 1, place, stops => do
    if stops.contains (← peek) then absent else node fuel place
termination_by structural fuel => fuel

/-- Reads a colon and what follows it; both may be left out. -/
def valueUnless : (fuel : Nat) → Place → (stops : List Token) → Compose NodeId
  | 0, _, _ => throw .malformed
  | fuel + 1, place, stops => do
    if (← peek) = .value then
      skip
      nodeUnless fuel place stops
    else absent
termination_by structural fuel => fuel

/-- Reads the items of a list up to its bracket. A key among them makes a map of one entry. -/
def flowItems : (fuel : Nat) → (isFirst : Bool) → Compose (List NodeId)
  | 0, _ => throw .malformed
  | fuel + 1, isFirst => do
    if !isFirst && (← peek) != .flowListEnd then expect .flowEntry
    match ← peek with
    | .flowListEnd => skip; return []
    | .key =>
      skip
      let entry ← inside do
        let k ← nodeUnless fuel .flow [.value, .flowEntry, .flowListEnd]
        let v ← valueUnless fuel .flow [.flowEntry, .flowListEnd]
        return (k, v)
      let id ← add (.map .map [entry])
      return id :: (← flowItems fuel false)
    | _ =>
      let id ← node fuel .flow
      return id :: (← flowItems fuel false)
termination_by structural fuel => fuel

/-- Reads the entries of a map up to its brace. An item without a colon is a key. -/
def flowEntries : (fuel : Nat) → (isFirst : Bool) → Compose (List (NodeId × NodeId))
  | 0, _ => throw .malformed
  | fuel + 1, isFirst => do
    if !isFirst && (← peek) != .flowMapEnd then expect .flowEntry
    match ← peek with
    | .flowMapEnd => skip; return []
    | .key =>
      skip
      let k ← nodeUnless fuel .flow [.value, .flowEntry, .flowMapEnd]
      let v ← valueUnless fuel .flow [.flowEntry, .flowMapEnd]
      return (k, v) :: (← flowEntries fuel false)
    | _ =>
      let k ← node fuel .flow
      let v ← absent
      return (k, v) :: (← flowEntries fuel false)
termination_by structural fuel => fuel

/-- Reads the items of an indented list. -/
def blockItems : (fuel : Nat) → Compose (List NodeId)
  | 0 => throw .malformed
  | fuel + 1 => do
    if (← peek) = .blockEntry then
      skip
      let id ← nodeUnless fuel .block [.blockEntry, .blockEnd]
      return id :: (← blockItems fuel)
    else
      expect .blockEnd
      return []
termination_by structural fuel => fuel

/-- Reads the items of a list that is not indented, which ends where its map goes on. -/
def looseItems : (fuel : Nat) → Compose (List NodeId)
  | 0 => throw .malformed
  | fuel + 1 => do
    if (← peek) = .blockEntry then
      skip
      let id ← nodeUnless fuel .block [.blockEntry, .key, .value, .blockEnd]
      return id :: (← looseItems fuel)
    else return []
termination_by structural fuel => fuel

/-- Reads the entries of an indented map. -/
def blockEntries : (fuel : Nat) → Compose (List (NodeId × NodeId))
  | 0 => throw .malformed
  | fuel + 1 => do
    if (← peek) = .key then
      skip
      let k ← nodeUnless fuel .entry [.key, .value, .blockEnd]
      let v ← valueUnless fuel .entry [.key, .value, .blockEnd]
      return (k, v) :: (← blockEntries fuel)
    else
      expect .blockEnd
      return []
termination_by structural fuel => fuel

end

/-- Skips the directives in front of a document; the version is given once at most. -/
def directives : (fuel : Nat) → (hasVersion : Bool) → Compose Unit
  | 0, _ => unexpected
  | fuel + 1, hasVersion => do
    match ← peek with
    | .directive name =>
      if name == "YAML" && hasVersion then unexpected
      skip
      directives fuel (hasVersion || name == "YAML")
    | _ => return

/-- Reads the root of a document with its marks; there is none in an empty one. -/
def root (fuel : Nat) : Compose (Option NodeId) := do
  match ← peek with
  | .streamEnd => return none
  | .directive _ | .documentStart =>
    directives fuel false
    expect .documentStart
    match ← peek with
    | .directive _ | .documentStart | .documentEnd | .streamEnd => some <$> absent
    | _ => some <$> node fuel .block
  | _ => some <$> node fuel .block

/-- Skips the marks at the end of a document. -/
def endings : (fuel : Nat) → Compose Unit
  | 0 => return
  | fuel + 1 => do
    if (← peek) = .documentEnd then
      skip
      endings fuel

/-- Reads the only document. Every step takes up a token or goes from one kind of node to another,
so the fuel suffices. -/
def document : Compose (Option NodeId) := do
  let fuel := 6 * (← get).tokens.length + 6
  let id ← root fuel
  endings fuel
  expect .streamEnd
  return id

end Compose

end NodeScript.Yaml
