import NodeScript.Yaml.Token.Quoted

/-! Plain scalars: words that need no quotes, on one line or on several. -/

namespace NodeScript.Yaml

def isBracket (c : Char) : Bool :=
  c == ',' || c == '[' || c == ']' || c == '\x7b' || c == '\x7d'

/-- Whether a colon with this after it ends a word. -/
def endsKey (inFlow : Bool) : List Char → Bool
  | [] => true
  | c :: _ => isGap c || (inFlow && isBracket c)

/-- The length of the word that starts here. Inside brackets it holds no marks of lists and maps. -/
def wordLength (inFlow : Bool) : List Char → Nat
  | [] => 0
  | c :: cs =>
    if isGap c || (c == ':' && endsKey inFlow cs) || (inFlow && (isBracket c || c == '?')) then 0
    else wordLength inFlow cs + 1

/-- A gap after a word: what it adds, its length, the column after it, and whether a line that
divides documents follows. -/
structure WordGap where
  gap : Gap
  taken : Nat
  column : Nat
  isLast : Bool

/-- The spaces and line breaks that come next. A tab belongs to no gap. -/
def wordGap : (gap : Gap) → (column : Nat) → List Char → WordGap
  | gap, column, [] => ⟨gap, 0, column, false⟩
  | gap, column, c :: cs =>
    if c == ' ' then
      let g := wordGap (gap.addBlank c) (column + 1) cs
      { g with taken := g.taken + 1 }
    else if isBreak c then
      if isSeparator cs then ⟨gap.addBreak c, 1, 0, true⟩
      else
        let g := wordGap (gap.addBreak c) 0 cs
        { g with taken := g.taken + 1 }
    else ⟨gap, 0, column, false⟩

/-- A plain scalar that has been read: its text, the place after it and the gap behind it, and
whether that gap has a line break. -/
structure PlainScalar where
  text : List Char
  cursor : Cursor
  endsLine : Bool

/-- Adds words to a plain scalar as long as they belong to it: in a block those that stand at
`least` columns or more. Each word takes up a character, so the length of the text is fuel enough. -/
def plainWords (inFlow : Bool) (least : Int) :
    (fuel : Nat) → (gap : List Char) → PlainScalar → PlainScalar
  | 0, _, s => s
  | fuel + 1, gap, s =>
    if s.cursor.peek? == some '#' then s
    else
      match wordLength inFlow s.cursor.rest with
      | 0 => s
      | length + 1 =>
        let text := s.text ++ gap ++ s.cursor.rest.take (length + 1)
        let c := s.cursor.advance (length + 1)
        let g := wordGap .none c.column c.rest
        let s := ⟨text, c.advance g.taken, g.gap.isBroken⟩
        if g.taken = 0 || g.isLast || (!inFlow && g.column < least) then s
        else plainWords inFlow least fuel g.gap.text s

/-- The plain scalar that comes next. -/
def plainScalar (inFlow : Bool) (least : Int) (fuel : Nat) (c : Cursor) : PlainScalar :=
  plainWords inFlow least fuel [] ⟨[], c, false⟩

/-- Whether a plain scalar can start here. -/
def startsPlain (inFlow : Bool) : List Char → Bool
  | [] => false
  | c :: cs =>
    if c == '-' then !endsWord cs
    else if c == '?' || c == ':' then !inFlow && !endsWord cs
    else !(isGap c || isBracket c || "#&*!|>'\"%@".toList.contains c || c.toNat == 96)

end NodeScript.Yaml
