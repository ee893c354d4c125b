import EntitySchema.Command.Arguments
import EntitySchema.Command.Sources

/-! The command line. Files are read before the command runs: those that the
arguments name first, then the included ones, level by level. -/

namespace EntitySchema

/-- What the system says of a file that it does not give. -/
def FileFault.ofSystem : IO.Error → FileFault
  | .noFileOrDirectory .. => .missing
  | .inappropriateType _ 21 _ => .directory
  | .inappropriateType .. => .notDirectory
  | fault => .system (toString fault)

/-- The text at a path, or why it cannot be had. -/
def readFile (path : String) : IO (Except FileFault String) := do
  try
    pure (Files.decode (← IO.FS.readBinFile path))
  catch fault =>
    pure (.error (.ofSystem fault))

/-- Reads the files at the paths and those that they include, `depth` levels deep. -/
def load (c : Command) : Nat → List String → Command.Loaded → IO Command.Loaded
  | 0, _, loaded => pure loaded
  | depth + 1, paths, loaded => do
    let contents ← paths.mapM fun path => do pure (path, ← readFile path)
    let loaded := contents ++ loaded
    match c.nextPaths loaded paths with
    | [] => pure loaded
    | next => load c depth next loaded

/-- Runs the command and gives the code to end with. -/
def runCommand (c : Command) : IO UInt32 := do
  let loaded ← load c (Screens.maxNesting + 2) c.namedPaths []
  match c.report loaded.files with
  | .ok report =>
    IO.print report
    pure 0
  | .error fault =>
    IO.eprintln s!"Error: {fault.message}"
    pure (UInt32.ofNat fault.exitCode)

/-- Reads the words of a command line and runs the command they ask for. -/
def runWords (words : List String) : IO UInt32 := do
  match Command.ofWords words with
  | .ok c => runCommand c
  | .error fault =>
    IO.eprintln s!"Error: {fault.message}\n{Command.usage}"
    pure 2

end EntitySchema

def main (words : List String) : IO UInt32 := EntitySchema.runWords words
