import NodeScript.Text.CharClass

/-!
Letters of texts. An escape can write one half of a pair without the other half, which is no
character. A text holds such a half as two characters, a mark and one that tells the half. The mark
is a character that no script uses; where it stands for itself it is written twice. So a text is the
row of its letters, and texts can be joined, compared and searched as rows of characters. What counts
letters, shows them or turns them into bytes goes by `letters`.
-/

namespace NodeScript.Text

/-- A character, or one half of a pair. -/
inductive Letter where
  | char (c : Char)
  | half (index : Fin 0x800)
deriving DecidableEq, Repr

/-- Stands before the character that tells a half. -/
def halfMark : Char := Char.ofNat 0xFFFF

namespace Letter

def code : Letter → Nat
  | .char c => c.toNat
  | .half index => 0xD800 + index

def ofCode (n : Nat) : Letter :=
  if h : 0xD800 ≤ n ∧ n < 0xE000 then .half ⟨n - 0xD800, by omega⟩ else .char (Char.ofNat n)

def isHalf : Letter → Bool
  | .char _ => false
  | .half _ => true

/-- The characters that stand for a letter in a text. -/
def chars : Letter → List Char
  | .char c => if c = halfMark then [c, c] else [c]
  | .half index => [halfMark, Char.ofNat (0xE000 + index)]

end Letter

/-- The half that a character after the mark tells. -/
def half? (c : Char) : Option Letter :=
  if h : 0xE000 ≤ c.toNat ∧ c.toNat < 0xE800 then some (.half ⟨c.toNat - 0xE000, by omega⟩) else none

/-- The letter that takes two characters. -/
def pair? (c d : Char) : Option Letter :=
  if c != halfMark then none else if d == halfMark then some (.char d) else half? d

def letters : List Char → List Letter
  | [] => []
  | [c] => [.char c]
  | c :: d :: cs =>
    match pair? c d with
    | some l => l :: letters cs
    | none => .char c :: letters (d :: cs)
termination_by structural cs => cs

def lettersOf (s : String) : List Letter :=
  letters s.toList

def ofLetters (ls : List Letter) : String :=
  String.ofList (ls.flatMap Letter.chars)

/-- The text of some characters. -/
def ofChars (cs : List Char) : String :=
  ofLetters (cs.map .char)

def hasHalf (s : String) : Bool :=
  (lettersOf s).any Letter.isHalf

/-- Whether a text comes first in the order of codes, or both are the same. -/
def comesFirst (s t : String) : Bool :=
  !List.lex ((lettersOf t).map Letter.code) ((lettersOf s).map Letter.code) Nat.blt

/-! ### Bytes -/

/-- Halves that stand side by side in a text. -/
structure HalfRun where
  /-- The code of the first of them. -/
  code : Nat
  /-- The letters before them. -/
  start : Nat
  count : Nat
deriving DecidableEq, Repr

/-- The first halves among letters, with `passed` letters before these. -/
def halfRun? : (passed : Nat) → List Letter → Option HalfRun
  | _, [] => none
  | passed, .char _ :: ls => halfRun? (passed + 1) ls
  | passed, .half index :: ls =>
    some ⟨(Letter.half index).code, passed, (ls.takeWhile Letter.isHalf).length + 1⟩

def Letter.byteCount : Letter → Nat
  | .char c => c.utf8Size
  | .half _ => 0

end NodeScript.Text
