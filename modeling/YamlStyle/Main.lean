import Std.Time.Format
import YamlStyle.Cli.Survey

/-!
# The program

Looks at the file system, leaves every decision to `Cli.run`, and prints what it is told.
-/

set_option autoImplicit false

namespace YamlStyle

/-- What is at a place, if anything is. A directory is told by the way it refuses to be read. -/
def probe (path : Path) : IO (Option (Path × Entry)) := do
  match ← (IO.FS.readBinFile path.render).toBaseIO with
  | .ok content => return some (path, .file content)
  | .error (.inappropriateType ..) => return some (path, .directory)
  | .error _ => return none

/-- Look at the places a run may look at. -/
def survey (world : Cli.World) (arguments : List String) : IO Cli.World := do
  let entries ← (Cli.places world arguments).eraseDups.filterMapM probe
  return { world with tree := ⟨entries⟩ }

/-- The environment of this process. -/
def environment : IO (List (String × String)) := do
  let content ← IO.FS.readBinFile "/proc/self/environ"
  let rows := (String.fromUTF8? content).getD "" |>.splitOn "\x00"
  return rows.filterMap fun row =>
    match Cli.splitEquals row.toList with
    | (name, some value) => some (name, value)
    | _ => none

/-- Today, as log files name it. -/
def today : IO String := do
  let now ← Std.Time.Timestamp.now
  return (Std.Time.PlainDate.ofEpochDay now.toDaysSinceUnixEpoch).format "uuuu-MM-dd"

/-- The surroundings of this process, before anything is known of the file system. -/
def surroundings : IO Cli.World := do
  let cwd := (FileTree.route [] s!"{← IO.currentDir}").2
  return { tree := ⟨[]⟩, cwd := cwd, environment := ← environment, date := ← today }

/-- Make a file, and the directory it is in. -/
def createFile (path : Path) : IO Unit := do
  IO.FS.createDirAll (Path.render path.dropLast)
  IO.FS.writeBinFile path.render ByteArray.empty

end YamlStyle

/-- Run the command line. -/
def main (arguments : List String) : IO UInt32 := do
  let world ← YamlStyle.surroundings
  let world ← YamlStyle.survey world arguments
  let world ← YamlStyle.survey world arguments
  let outcome := YamlStyle.Cli.run world arguments
  outcome.created.forM YamlStyle.createFile
  (← IO.getStdout).putStr outcome.stdout
  (← IO.getStderr).putStr outcome.stderr
  return UInt32.ofNat outcome.exit
