import NodeScript.Settings
import NodeScript.Yaml.Reader

/-! Files by name, as far as the engine reads and writes them, and the settings found in them. -/

namespace NodeScript

/-- Texts of files below the working directory and below the home directory. -/
structure Workspace where
  files : Dict String String := {}
  homeFiles : Dict String String := {}
  /-- Directories besides those that the files lie in. -/
  directories : List String := []

/-- What stands under a path. -/
inductive PathEntry where
  | file (text : String)
  | directory
deriving DecidableEq, Repr

/-- Where a file is looked for. -/
inductive Location where
  | here (path : String)
  | home (path : String)
deriving DecidableEq, Repr

/-- What stands between the slashes of a path. -/
def pathSteps (path : String) : List String :=
  (path.toList.splitOn '/').map String.ofList

/-- Whether a path begins at the root of all files. -/
def isAbsolute (path : String) : Bool :=
  path.toList.head? == some '/'

/-- A path without empty steps and steps to the same directory. -/
def normalPath (path : String) : String :=
  let steps := (pathSteps path).filter fun s => s != "" && s != "."
  let joined := "/".intercalate steps
  if isAbsolute path then "/" ++ joined
  else if steps.isEmpty then "."
  else joined

namespace Location

/-- The location as messages show it. -/
def text : Location → String
  | .here path => normalPath path
  | .home path => "~/" ++ path

def settingsPath : String := ".scriptgraph/config.yaml"

/-- Where settings are looked for: those of the project go before those of the user. -/
def defaults : List Location :=
  [.here settingsPath, .home settingsPath]

end Location

namespace Workspace

/-- What lies some steps below the working directory. -/
def below? (w : Workspace) (steps : List String) : Option PathEntry :=
  let path := "/".intercalate steps
  let above := w.files.keys ++ w.directories.map (· ++ "/")
  if steps.isEmpty || above.any ((path ++ "/").isPrefixOf ·) then some .directory
  else (w.files.get? path).map .file

/-- What a place is. Of places outside the working directory only directories can be reached. -/
def entryAt? (w : Workspace) : (place : Option (List String)) → Option PathEntry
  | some steps => w.below? steps
  | none => some .directory

/-- Follows the steps of a path from a place, which is given by its steps below the working directory
or lies outside. Every step but the last must lead to a directory. -/
def follow? (w : Workspace) :
    (place : Option (List String)) → List String → Option (Option (List String))
  | place, [] => some place
  | place, step :: rest =>
    if w.entryAt? place != some .directory then none
    else if step = "" || step = "." then w.follow? place rest
    else
      match place with
      | none => if step = ".." then w.follow? none rest else none
      | some steps =>
        if step = ".." then w.follow? (if steps.isEmpty then none else some steps.dropLast) rest
        else w.follow? (some (steps ++ [step])) rest

/-- What stands under a path. -/
def entry? (w : Workspace) (path : String) : Option PathEntry :=
  if path = "" then none
  else do
    let start := if isAbsolute path then none else some []
    w.entryAt? (← w.follow? start (pathSteps path))

def read? (w : Workspace) : Location → Option String
  | .here path =>
    match w.entry? (normalPath path) with
    | some (.file text) => some text
    | _ => none
  | .home path => w.homeFiles.get? (normalPath path)

def hasPath (w : Workspace) (path : String) : Bool :=
  (w.entry? path).isSome

def write (w : Workspace) (path text : String) : Workspace :=
  { w with files := w.files.insert (normalPath path) text }

/-- The first location that holds a file. -/
def find? (w : Workspace) (locations : List Location) : Option Location :=
  locations.find? fun l => (w.read? l).isSome

end Workspace

namespace Settings

/-- The entries of a settings file, which may stand under a key of their own. -/
def fileEntries (h : Heap) (path : String) (v : Value) : Except SettingsError (Dict Key Value) :=
  match h.map? v with
  | none => .error (.fileNotMapping path)
  | some entries =>
    match entries.get? (.text "engine") with
    | none => .ok entries
    | some engine =>
      match h.map? engine with
      | none => .error (.engineNotMapping path)
      | some entries => .ok entries

/-- Settings from the first file found, with some of them overridden; nil overrides nothing. -/
def load (w : Workspace) (locations : List Location) (overrides : List (Key × Tree)) :
    Except SettingsError Settings := do
  let (entries, h) ←
    match w.find? locations with
    | none => pure (({} : Dict Key Value), ({} : Heap))
    | some location =>
      match Yaml.load {} ((w.read? location).getD "") with
      | .error .malformed => .error (.unreadable location.text)
      | .error (.fault f) => .error (.fault f)
      | .ok (.nil, h) => pure ({}, h)
      | .ok (v, h) => do pure (← fileEntries h location.text v, h)
  let (given, h) := overrides.foldl
    (fun (given, h) (k, t) =>
      let (v, h) := Heap.store h t
      (if v = .nil then given else given ++ [(k, v)], h))
    (([] : List (Key × Value)), h)
  ofDict h (entries.insertAll given)

end Settings

end NodeScript
