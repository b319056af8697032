import NodeScript.Command
import NodeScript.Layout

/-! The program: reads the files that a command may need, carries it out and prints the outcome. -/

namespace NodeScript.Program

/-- How the system reports that a directory was to be read like a file. -/
def isDirectoryCode : UInt32 := 21

/-- A text from outside, which is made of characters. -/
def givenText (s : String) : String :=
  Text.ofChars s.toList

/-- A text for the outside, where halves of pairs cannot be shown. -/
def plainText (s : String) : String :=
  String.ofList <| (Text.lettersOf s).map fun
    | .char c => c
    | .half _ => Char.ofNat 0xFFFD

/-- What can be read under a path. -/
def readEntry? (path : String) : IO (Option PathEntry) := do
  try
    return some (.file (givenText (← IO.FS.readFile (plainText path))))
  catch
    | .inappropriateType _ code _ =>
      return if code = isDirectoryCode then some .directory else none
    | _ => return none

/-- A path without detours. -/
def directPath (path : String) : String :=
  "/".intercalate <| (pathSteps (normalPath path)).foldl
    (fun steps step => if step = ".." then steps.dropLast else steps ++ [step]) []

/-- The directories that a path goes through. -/
def leadingPaths (path : String) : List String :=
  let steps := pathSteps path
  (List.range steps.length).map fun n => "/".intercalate (steps.take n)

/-- The files and directories that arguments mention, and the settings of the project. -/
def readHere (args : List String) : IO Workspace := do
  let mut w : Workspace := {}
  for path in Location.settingsPath :: args.flatMap fun arg => arg :: leadingPaths arg do
    match ← readEntry? path with
    | some (.file text) => w := w.write (directPath path) text
    | some .directory => w := { w with directories := directPath path :: w.directories }
    | none => pure ()
  return w

/-- All that the command may need to read. -/
def readWorkspace (args : List String) : IO Workspace := do
  let w ← readHere args
  match ← IO.getEnv "HOME" with
  | some home =>
    match ← readEntry? (home ++ "/" ++ Location.settingsPath) with
    | some (.file text) => return { w with homeFiles := .ofList [(Location.settingsPath, text)] }
    | _ => return w
  | none => return w

def directory (path : String) : String :=
  "/".intercalate (pathSteps path).dropLast

def writeNew (before after : Workspace) : IO Unit := do
  for (path, text) in after.files.entries do
    if !before.files.contains path then
      if directory path != "" then IO.FS.createDirAll (plainText (directory path))
      IO.FS.writeFile (plainText path) (plainText text)

def run (given : List String) : IO UInt32 := do
  let args := given.map givenText
  let w ← readWorkspace args
  let outcome := Command.perform w args
  writeNew w outcome.workspace
  for line in outcome.printed.flatMap Layout.lines do
    IO.println (plainText line)
  IO.print (plainText outcome.output)
  if let some fault := outcome.fault then
    IO.eprintln (plainText fault.message)
  if outcome.exit = Command.usageError then
    IO.eprintln "usage: init | run FILE | validate FILE | show FILE | handlers"
  return outcome.exit.toUInt32

end NodeScript.Program

def main (args : List String) : IO UInt32 :=
  NodeScript.Program.run args
