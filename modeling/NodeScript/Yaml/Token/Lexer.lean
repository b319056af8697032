import NodeScript.Yaml.Token.Block

/-!
The tokens of a document. A word becomes a key only when the colon after it is met, so each place
where a key may have started is kept until then; the structure of blocks follows from the columns.
-/

namespace NodeScript.Yaml

/-- A place where a key may have started. -/
structure KeyStart where
  /-- The number of tokens before it. -/
  position : Nat
  /-- The number of brackets around it. -/
  depth : Nat
  /-- Whether what starts there can be nothing but a key. -/
  isRequired : Bool
  index : Nat
  line : Nat
  column : Nat
deriving DecidableEq, Repr

/-- A key and its colon stand on one line, and this far apart at most. -/
def keyLengthLimit : Nat := 1024

structure Lexer where
  cursor : Cursor
  tokens : Array Token := #[]
  /-- The number of open brackets. -/
  depth : Nat := 0
  /-- Where keys may have started, the innermost place first: at most one in each open bracket, and
  one in the block around them. -/
  starts : List KeyStart := []
  /-- The column of the innermost block, and those of the blocks around it. -/
  indent : Int := -1
  outer : List Int := []
  /-- Whether a key may start next. -/
  keyAllowed : Bool := true

namespace Lexer

abbrev Result := Except ReadError Lexer

def inFlow (l : Lexer) : Bool := l.depth > 0

def emit (t : Token) (l : Lexer) : Lexer :=
  { l with tokens := l.tokens.push t }

/-- A token that takes up some characters. -/
def take (t : Token) (length : Nat) (l : Lexer) : Lexer :=
  { l with tokens := l.tokens.push t, cursor := l.cursor.advance length }

/-- Where a key may have started inside the innermost bracket. -/
def keyStart? (l : Lexer) : Option KeyStart :=
  l.starts.head?.filter (·.depth == l.depth)

def forgetKeyStart (l : Lexer) : Lexer :=
  { l with starts := if l.keyStart?.isSome then l.starts.tail else l.starts }

/-- Gives up the place where a key may have started. -/
def dropKeyStart (l : Lexer) : Result :=
  match l.keyStart? with
  | some start => if start.isRequired then .error .malformed else .ok l.forgetKeyStart
  | none => .ok l

/-- Notes that a key may start here. -/
def markKeyStart (l : Lexer) : Result :=
  if !l.keyAllowed then .ok l
  else do
    let c := l.cursor
    let isRequired := !l.inFlow && l.indent == c.column
    let l ← l.dropKeyStart
    let start := ⟨l.tokens.size, l.depth, isRequired, c.index, c.line, c.column⟩
    return { l with starts := start :: l.starts }

/-- Whether a colon here would come too late for a key that started there. -/
def isStale (c : Cursor) (start : KeyStart) : Bool :=
  start.line != c.line || c.index - start.index > keyLengthLimit

/-- Gives up the places from which it is too late for a key. -/
def dropStale (l : Lexer) : Result :=
  let (stale, others) := l.starts.partition (isStale l.cursor)
  if stale.any (·.isRequired) then .error .malformed else .ok { l with starts := others }

/-- The innermost block ends where a column before its own is reached. -/
def closeBlocks (column : Int) : (outer : List Int) → Lexer → Lexer
  | [], l => l
  | o :: outer, l =>
    if column < l.indent then
      closeBlocks column outer { l with tokens := l.tokens.push .blockEnd, indent := o, outer }
    else l

/-- Inside brackets columns mean nothing. -/
def unwind (column : Int) (l : Lexer) : Lexer :=
  if l.inFlow then l else closeBlocks column l.outer l

/-- Starts a block at a column unless one has started there; its token goes to the position. -/
def openBlock (t : Token) (column : Nat) (position : Nat) (l : Lexer) : Lexer :=
  if l.inFlow || column ≤ l.indent then l
  else
    { l with
      tokens := l.tokens.insertIdxIfInBounds position t
      indent := column
      outer := l.indent :: l.outer }

/-- Skips blanks, comments and line breaks. After a line break in a block a key may start. -/
def skipGaps : (fuel : Nat) → Lexer → Lexer
  | 0, l => l
  | fuel + 1, l =>
    let c := l.cursor.skipWhile (· == ' ')
    let c := if c.peek? == some '#' then c.skipWhile (!isBreak ·) else c
    match c.peek? with
    | none => { l with cursor := c }
    | some x =>
      if isBreak x then
        skipGaps fuel { l with cursor := c.step, keyAllowed := l.keyAllowed || !l.inFlow }
      else { l with cursor := c }

/-- Ends all blocks, as a line that divides documents does. -/
def endDocument (l : Lexer) : Result := do
  let l ← (l.unwind (-1)).dropKeyStart
  return { l with keyAllowed := false }

def isNameChar (c : Char) : Bool :=
  ('0' ≤ c && c ≤ '9') || ('A' ≤ c && c ≤ 'Z') || ('a' ≤ c && c ≤ 'z') || c == '-' || c == '_'

/-- The line of a directive. That of the version asks for the first major version. -/
def directive (l : Lexer) : Result := do
  let l ← l.endDocument
  let rest := l.cursor.rest.tail
  let name := rest.takeWhile isNameChar
  let after := rest.drop name.length
  if name.isEmpty || !(after.head?.all fun c => c == ' ' || isBreak c) then throw .malformed
  let line := after.takeWhile (!isBreak ·)
  if name == "YAML".toList then
    let version := (line.takeWhile (· != '#')).filter (· != ' ')
    if !(['1', '.'].isPrefixOf version && (version.drop 2).all Char.isDigit && version.length > 2) then
      throw .malformed
  return l.take (.directive (String.ofList name)) (1 + name.length + line.length)

/-- An opening bracket, which may itself start a key. -/
def openBracket (t : Token) (l : Lexer) : Result := do
  let l ← l.markKeyStart
  return { l.take t 1 with depth := l.depth + 1, keyAllowed := true }

def closeBracket (t : Token) (l : Lexer) : Result := do
  if !l.inFlow then throw .malformed
  let l ← l.dropKeyStart
  return { l.take t 1 with depth := l.depth - 1, keyAllowed := false }

def flowEntry (l : Lexer) : Result := do
  let l ← l.dropKeyStart
  return { l.take .flowEntry 1 with keyAllowed := true }

/-- A dash or a question mark; outside brackets it may start a block. -/
def blockMark (t opener : Token) (allowedAfter : Bool) (l : Lexer) : Result := do
  if !l.inFlow && !l.keyAllowed then throw .malformed
  let l ← (l.openBlock opener l.cursor.column l.tokens.size).dropKeyStart
  return { l.take t 1 with keyAllowed := allowedAfter }

/-- A colon. What may have been a key until now is one. -/
def colon (l : Lexer) : Result :=
  match l.keyStart? with
  | some start =>
    let l := { l with tokens := l.tokens.insertIdxIfInBounds start.position .key }
    let l := l.forgetKeyStart.openBlock .blockMapStart start.column start.position
    .ok { l.take .value 1 with keyAllowed := false }
  | none => l.blockMark .value .blockMapStart (!l.inFlow)

/-- The name of an anchor or alias, after its mark. -/
def name (make : String → Token) (l : Lexer) : Result := do
  let l ← l.markKeyStart
  let word := l.cursor.rest.tail.takeWhile isNameChar
  let after := l.cursor.rest.drop (word.length + 1)
  let ends := after.head?.all fun c => isGap c || "?:,]\x7d%@".toList.contains c || c.toNat == 96
  if word.isEmpty || !ends then throw .malformed
  return { l.take (make (String.ofList word)) (word.length + 1) with keyAllowed := false }

/-- The full name of a tag. -/
def tagName (word : List Char) : String :=
  match word with
  | '!' :: '!' :: rest => coreTag ++ String.ofList rest
  | '!' :: '<' :: rest => String.ofList (rest.takeWhile (· != '>'))
  | _ => String.ofList word

def tag (l : Lexer) : Result := do
  let l ← l.markKeyStart
  let word := l.cursor.rest.takeWhile (!isGap ·)
  return { l.take (.tag (tagName word)) word.length with keyAllowed := false }

def quoted (l : Lexer) : Result := do
  let l ← l.markKeyStart
  let (text, cursor) ← quotedScalar l.cursor
  return { l.emit (.scalar false text) with cursor, keyAllowed := false }

def plain (fuel : Nat) (l : Lexer) : Result := do
  let l ← l.markKeyStart
  let s := plainScalar l.inFlow (l.indent + 1) fuel l.cursor
  return { l.emit (.scalar true (String.ofList s.text)) with
    cursor := s.cursor, keyAllowed := s.endsLine }

def block (fuel : Nat) (l : Lexer) : Result := do
  let l ← l.dropKeyStart
  let (text, cursor) ← blockScalar fuel l.indent l.cursor
  return { l.emit (.scalar false text) with cursor, keyAllowed := true }

/-- The next token, whose first character is `c`. -/
def next (fuel : Nat) (c : Char) (rest : List Char) (l : Lexer) : Result :=
  let atStart := l.cursor.column == 0
  if c == '%' && atStart then l.directive
  else if atStart && isSeparator (c :: rest) then do
    return (← l.endDocument).take (if c == '-' then .documentStart else .documentEnd) 3
  else
    match c with
    | '[' => l.openBracket .flowListStart
    | '\x7b' => l.openBracket .flowMapStart
    | ']' => l.closeBracket .flowListEnd
    | '\x7d' => l.closeBracket .flowMapEnd
    | ',' => l.flowEntry
    | '*' => l.name .alias
    | '&' => l.name .anchor
    | '!' => l.tag
    | '\'' | '"' => l.quoted
    | _ =>
      if c == '-' && endsWord rest then l.blockMark .blockEntry .blockListStart true
      else if c == '?' && (l.inFlow || endsWord rest) then
        l.blockMark .key .blockMapStart (!l.inFlow)
      else if c == ':' && (l.inFlow || endsWord rest) then l.colon
      else if (c == '|' || c == '>') && !l.inFlow then l.block fuel
      else if startsPlain l.inFlow (c :: rest) then l.plain fuel
      else .error .malformed

/-- Reads one more token, and says whether it is the last one. -/
def advance (total : Nat) (l : Lexer) : Except ReadError (Lexer × Bool) := do
  let l ← (skipGaps total l).dropStale
  let l := l.unwind l.cursor.column
  match l.cursor.rest with
  | [] => return ((← l.endDocument).emit .streamEnd, true)
  | c :: rest => return (← l.next total c rest, false)

/-- The number of tokens before the first one that may still turn out to start a key. -/
def settled (l : Lexer) : Nat :=
  (l.starts.getLast?.map (·.position)).getD l.tokens.size

/-- The tokens before an error. -/
def breakOff (count : Nat) (e : ReadError) (l : Lexer) : Array Token :=
  (l.tokens.extract 0 count).push (.broken e)

/-- All tokens. A token is given out only when it is settled what it is, so an error comes before
those of which that was open; `count` tokens are given out. Each token takes up a character, so the
length of the text is fuel enough. -/
def run (total : Nat) : (fuel : Nat) → (count : Nat) → Lexer → Array Token
  | 0, count, l => l.breakOff count .malformed
  | fuel + 1, count, l =>
    match l.dropStale with
    | .error e => l.breakOff count e
    | .ok l =>
      let count := l.settled
      match l.advance total with
      | .error e => l.breakOff count e
      | .ok (l, true) => l.tokens
      | .ok (l, false) => run total fuel count l

end Lexer

/-- Characters that may stand in a document. -/
def isAllowed (c : Char) : Bool :=
  c == '\t' || c == '\n' || (' ' ≤ c && c ≤ '~') || c.toNat == 0x85 ||
    (0xA0 ≤ c.toNat && c.toNat != 0xFFFE && c.toNat != 0xFFFF)

/-- The text without a mark of the byte order in front of it. -/
def dropMark : List Char → List Char
  | [] => []
  | c :: cs => if c == byteOrderMark then cs else c :: cs

/-- The tokens of a text. -/
def tokens (cs : List Char) : List Token :=
  if !cs.all isAllowed then [.broken .malformed]
  else
    let l : Lexer := { cursor := { rest := dropMark cs } }
    (l.run (cs.length + 1) (cs.length + 1) 0).toList

end NodeScript.Yaml
