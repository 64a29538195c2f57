import YamlStyle.Cli.Failure
import YamlStyle.Config.Load
import YamlStyle.FileTree.Create

/-!
# What a run meets and what it leaves behind

A run of the command line depends on its surroundings, the `World`, and on nothing else. What it
leaves behind is an `Outcome`; so the whole command line is a function, and only the program around
it looks at a file system.
-/

set_option autoImplicit false

namespace YamlStyle

namespace Cli

/-- The surroundings of a run. -/
structure World where
  tree : FileTree
  /-- Working directory. -/
  cwd : Path
  /-- Environment variables. -/
  environment : List (String × String)
  /-- Today, as log files name it. -/
  date : String

/-- What a run leaves behind. -/
structure Outcome where
  /-- Exit code. -/
  exit : Nat := 0
  stdout : String := ""
  stderr : String := ""
  /-- Files that were not there before, with the directories they are in. -/
  created : List Path := []
  deriving DecidableEq, Repr

/-- The outcome of a run that fails. -/
def Failure.outcome (failure : Failure) : Outcome where
  exit := 1
  stderr := failure.report ++ "\n"

namespace World

/-- An environment variable. -/
def lookup? (world : World) (name : String) : Option String := world.environment.lookup name

/-- The directory under which users keep their configurations. A directory that is not given from the
root does not count. -/
def configHome? (world : World) : Option Path :=
  match (world.lookup? "XDG_CONFIG_HOME").map String.toList with
  | some ('/' :: rest) => some ((Path.split rest).filter (· != ""))
  | _ =>
    match (world.lookup? "HOME").map String.toList with
    | some (c :: rest) =>
      let (start, names) := FileTree.route world.cwd (String.ofList (c :: rest))
      some (start ++ names ++ [".config"])
    | _ => none

/-- What to load as the configuration of a run. -/
def configRequest (world : World) (explicit : Option String) : ConfigRequest where
  cwd := world.cwd
  search := some world.cwd.render
  userDir := world.configHome?.map (· ++ ["ymlint"])
  explicit := explicit.toList
  environment := world.environment

end World

end Cli

end YamlStyle
