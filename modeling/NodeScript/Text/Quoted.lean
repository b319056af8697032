import NodeScript.Text.Letter
import NodeScript.Text.Printable

/-!
Quoted texts in two formats. Messages quote with the mark that needs fewer escapes and show printable
characters of any script; serialised tables quote with double marks and stay within ASCII.
-/

namespace NodeScript.Text

/-- A double mark is chosen only for a text that has a single one and no double one. -/
def quoteMark (cs : List Char) : Char :=
  if cs.contains '\'' && !cs.contains '"' then '"' else '\''

def quoteChar (mark c : Char) : List Char :=
  if c == mark || c == '\\' then ['\\', c]
  else if c == '\n' then ['\\', 'n']
  else if c == '\r' then ['\\', 'r']
  else if c == '\t' then ['\\', 't']
  else if isPrintable c then [c]
  else if c.toNat < 0x100 then '\\' :: 'x' :: hexDigits 2 c.toNat
  else if c.toNat < 0x10000 then '\\' :: 'u' :: hexDigits 4 c.toNat
  else '\\' :: 'U' :: hexDigits 8 c.toNat

/-- The escape of a half of a pair. -/
def escapedHalf (index : Fin 0x800) : List Char :=
  '\\' :: 'u' :: hexDigits 4 (Letter.half index).code

def quoteLetter (mark : Char) : Letter → List Char
  | .char c => quoteChar mark c
  | .half index => escapedHalf index

/-- The text as messages quote it. -/
def quoted (s : String) : String :=
  let mark := quoteMark s.toList
  String.ofList (mark :: (lettersOf s).flatMap (quoteLetter mark) ++ [mark])

/-- Characters beyond four hexadecimal digits are written as a pair of halves. -/
def jsonChar (c : Char) : List Char :=
  if c == '"' || c == '\\' then ['\\', c]
  else if c == '\n' then ['\\', 'n']
  else if c == '\r' then ['\\', 'r']
  else if c == '\t' then ['\\', 't']
  else if c.toNat == 8 then ['\\', 'b']
  else if c.toNat == 12 then ['\\', 'f']
  else if 32 ≤ c.toNat && c.toNat < 127 then [c]
  else if c.toNat < 0x10000 then '\\' :: 'u' :: hexDigits 4 c.toNat
  else
    let n := c.toNat - 0x10000
    '\\' :: 'u' :: hexDigits 4 (0xD800 + n / 0x400) ++
      '\\' :: 'u' :: hexDigits 4 (0xDC00 + n % 0x400)

def jsonLetter : Letter → List Char
  | .char c => jsonChar c
  | .half index => escapedHalf index

/-- The text as serialised tables quote it. -/
def jsonQuoted (s : String) : String :=
  String.ofList ('"' :: (lettersOf s).flatMap jsonLetter ++ ['"'])

end NodeScript.Text
