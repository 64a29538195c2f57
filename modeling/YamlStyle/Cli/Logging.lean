import YamlStyle.Cli.World
import YamlStyle.FileTree.Written

/-!
# Log files

A run can keep a log: in a file of its own, or in a directory, where every day has a file. The
environment can ask for either, the configuration for a directory. A file beats a directory, and the
environment beats the configuration.

The file is opened before the command starts its work, so it is there even if the command then fails.
-/

set_option autoImplicit false

namespace YamlStyle

namespace Cli

/-- Where a log is kept. -/
inductive LogTarget where
  | file (path : String)
  | directory (dir : String)
  deriving DecidableEq, Repr

/-- Why a log cannot be kept. -/
inductive LogError where
  | noFileName (path : String)
  | noDirectory (dir : String) (cause : IoError)
  /-- The file cannot be opened. There is no way to go on from here. -/
  | notOpened (cause : IoError)
  deriving DecidableEq, Repr

namespace LogError

/-- What a run that was to keep a log leaves behind. -/
def outcome : LogError → Outcome
  | .noFileName path => Failure.outcome ⟨context, [s!"log path has no file name: {path}"]⟩
  | .noDirectory dir cause =>
    Failure.outcome ⟨context, [s!"failed to create log directory {dir}", cause.message]⟩
  | .notOpened cause =>
    { exit := 101, stderr := s!"initializing the log file failed: {cause.message}\n" }
where
  /-- What could not be done. -/
  context : String := "failed to initialize logging/tracing"

end LogError

namespace LogTarget

/-- The name of the log files of a directory, before the date. -/
def fileName : String := "ymlint.jsonl"

/-- Where a run keeps its log, if it keeps one. -/
def ofWorld? (world : World) (config : Config) : Option LogTarget :=
  match world.lookup? "YMLINT_LOG_PATH" with
  | some path => some (.file path)
  | none => ((world.lookup? "YMLINT_LOG_DIR").or config.logDir).map .directory

/-- The directory and the name of the log file. -/
def split (date : String) : LogTarget → Except LogError (String × String)
  | .directory dir => .ok (dir, fileName ++ "." ++ date)
  | .file path =>
    match Written.fileName? path.toList with
    | none => .error (.noFileName path)
    | some name =>
      let dir := Written.parent path.toList
      .ok (if dir.isEmpty then "." else String.ofList dir, String.ofList name)

/-- Open the log file, and return it if it is new. -/
def create (target : LogTarget) (world : World) : Except LogError (FileTree × Option Path) :=
  match target.split world.date with
  | .error e => .error e
  | .ok (dir, name) =>
    match world.tree.createDirectories world.cwd dir with
    | .error cause => .error (.noDirectory dir cause)
    | .ok tree =>
      match tree.openFile world.cwd (String.ofList (Written.join dir.toList name.toList)) with
      | .error cause => .error (.notOpened cause)
      | .ok (tree, path, isNew) => .ok (tree, if isNew then some path else none)

end LogTarget

/-- Start the log of a run, if there is to be one. -/
def startLog (world : World) (config : Config) : Except LogError (FileTree × Option Path) :=
  match LogTarget.ofWorld? world config with
  | none => .ok (world.tree, none)
  | some target => target.create world

end Cli

end YamlStyle
