import NodeScript.Yaml.Cursor

/-! Tokens: the marks and words of a document, with the structure that indentation gives it. -/

namespace NodeScript.Yaml

/-- Tags of the language itself start with this. -/
def coreTag : String := "tag:yaml.org,2002:"

inductive Token where
  | directive (name : String)
  | documentStart
  | documentEnd
  | blockListStart
  | blockMapStart
  | blockEnd
  | flowListStart
  | flowListEnd
  | flowMapStart
  | flowMapEnd
  /-- The comma inside brackets. -/
  | flowEntry
  /-- The dash before an item. -/
  | blockEntry
  | key
  | value
  | alias (name : String)
  | anchor (name : String)
  | tag (name : String)
  | scalar (isPlain : Bool) (text : String)
  | streamEnd
  /-- From here on the text has no tokens. -/
  | broken (error : ReadError)
deriving DecidableEq, Repr

/-- Why a token that has no place where it stands ends the reading. -/
def Token.error : Token → ReadError
  | .broken error => error
  | _ => .malformed

end NodeScript.Yaml
