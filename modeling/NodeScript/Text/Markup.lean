/-!
Markup for terminals: style tags stand in square brackets. Texts that come from scripts are escaped,
so that nothing in them is taken for a tag.
-/

namespace NodeScript.Text

def startsTag (c : Char) : Bool :=
  c.isLower || c == '#' || c == '/' || c == '@'

/-- Whether a bracket is closed before another one opens. -/
def isClosed : List Char → Bool
  | [] => false
  | c :: cs => c == ']' || (c != '[' && isClosed cs)

/-- Whether an opening bracket with this after it begins a tag. -/
def opensTag : List Char → Bool
  | [] => false
  | c :: cs => startsTag c && isClosed cs

/-- Puts a backslash before each tag and doubles the backslashes before it; `slashes` of them have
just been passed. -/
def escapeTags : (slashes : Nat) → List Char → List Char
  | n, [] => List.replicate n '\\'
  | n, c :: cs =>
    if c == '\\' then escapeTags (n + 1) cs
    else if c == '[' && opensTag cs then List.replicate (2 * n + 1) '\\' ++ c :: escapeTags 0 cs
    else List.replicate n '\\' ++ c :: escapeTags 0 cs

/-- A single backslash at the end is doubled, since a tag may follow the text. -/
def closeSlash (cs : List Char) : List Char :=
  match cs.reverse with
  | '\\' :: '\\' :: _ => cs
  | '\\' :: _ => cs ++ ['\\']
  | _ => cs

def escapeMarkup (s : String) : String :=
  String.ofList (closeSlash (escapeTags 0 s.toList))

/-- What follows the bracket that closes a tag. -/
def afterTag (cs : List Char) : List Char :=
  (cs.dropWhile (· != ']')).tail

theorem length_afterTag_le (cs : List Char) : (afterTag cs).length ≤ cs.length := by
  have h := (List.dropWhile_suffix (fun c => c != ']') (l := cs)).length_le
  simp only [afterTag, List.length_tail]
  omega

/-- Drops tags and the backslashes that escape brackets; `slashes` of them have just been passed. -/
def stripTags (slashes : Nat) : List Char → List Char
  | [] => List.replicate slashes '\\'
  | c :: cs =>
    if c == '\\' then stripTags (slashes + 1) cs
    else if c == '[' && opensTag cs then
      List.replicate (slashes / 2) '\\' ++
        if slashes % 2 = 1 then c :: stripTags 0 cs else stripTags 0 (afterTag cs)
    else List.replicate slashes '\\' ++ c :: stripTags 0 cs
termination_by cs => cs.length
decreasing_by
  all_goals simp only [List.length_cons]
  all_goals have := length_afterTag_le cs
  all_goals omega

/-- A text with markup as it is read. -/
def plainMarkup (s : String) : String :=
  String.ofList (stripTags 0 s.toList)

end NodeScript.Text
