import YamlStyle.Config
import YamlStyle.Config.Search
import YamlStyle.FileTree.Written
import YamlStyle.Value.Environment
import YamlStyle.Value.Json
import YamlStyle.Value.Toml
import YamlStyle.Value.Yaml

/-!
# Loading a configuration

A configuration is laid together from the defaults, the file of the user, the files of the project,
the files that were asked for by name and the environment, each over the one before. Nothing is read
as a configuration before all of this has been laid together, so a value that does not fit does no
harm if a later layer replaces it.
-/

set_option autoImplicit false

namespace YamlStyle

/-- Where to look for a configuration. -/
structure ConfigRequest where
  /-- Working directory. -/
  cwd : Path
  /-- The directory where the search for the configuration of the project starts. -/
  search : Option String := none
  /-- What marks the place where a project begins. -/
  marker : Option String := some ".git"
  /-- The directory of the user's configuration, if it is to be read. -/
  userDir : Option Path := none
  /-- Files asked for by name. -/
  explicit : List String := []
  /-- Environment variables. -/
  environment : List (String × String) := []

/-- The files a configuration was read from. -/
structure ConfigSources where
  /-- In the order in which they were read. -/
  project : List String
  user : Option String
  /-- In the order in which they were asked for. -/
  explicit : List String
  deriving DecidableEq, Repr

/-- The file that has the last word. -/
def ConfigSources.primary? (sources : ConfigSources) : Option String :=
  (sources.explicit.getLast?.or sources.project.getLast?).or sources.user

namespace ConfigRequest

/-- The reader for a file, by its extension. -/
def reader (path : String) : Text → Option Value :=
  match (Written.fileName? path.toList).bind Written.extension? with
  | some ['y', 'a', 'm', 'l'] => Yaml.parse?
  | some ['y', 'm', 'l'] => Yaml.parse?
  | some ['j', 's', 'o', 'n'] => Json.parse?
  | _ => Toml.parse?

/-- Read a configuration file. -/
def readFile (tree : FileTree) (cwd : Path) (path : String) : Except LoadError Value :=
  match tree.readText cwd path with
  | .error _ => .error (.unreadable path)
  | .ok text =>
    match reader path text.toList with
    | some (.table entries) => .ok (.table entries)
    | _ => .error (.unreadable path)

/-- The files a request leads to. -/
def sources (request : ConfigRequest) (tree : FileTree) : ConfigSources where
  user := (request.userDir.bind (Search.userFile? tree)).map Path.render
  project :=
    match request.search with
    | some start => Search.projectFiles tree request.cwd request.marker start
    | none => []
  explicit := request.explicit

/-- What the environment says. -/
def environmentLayer (request : ConfigRequest) : Except LoadError Value :=
  (Environment.toValue request.environment).mapError .brokenVariable

/-- The layers of a configuration above the defaults, the lowest first. A variable of which nothing can
be made is reported before anything else. -/
def layers (request : ConfigRequest) (tree : FileTree) (sources : ConfigSources) :
    Except LoadError (List Value) := do
  let top ← request.environmentLayer
  let files := sources.user.toList ++ sources.project ++ sources.explicit
  let values ← files.mapM (readFile tree request.cwd)
  pure (values ++ [top])

/-- The layer of the defaults. -/
def defaults : Value := Config.toValue {}

/-- Load a configuration, and say where it came from. -/
def load (request : ConfigRequest) (tree : FileTree) : Except LoadError (Config × ConfigSources) := do
  let sources := request.sources tree
  let layers ← request.layers tree sources
  let config ← Config.ofValue (Value.overlayAll defaults layers)
  pure (config, sources)

/-- Load a configuration from at least one file. -/
def loadFound (request : ConfigRequest) (tree : FileTree) :
    Except LoadError (Config × ConfigSources) :=
  let sources := request.sources tree
  if sources.user.isNone && sources.project.isEmpty && sources.explicit.isEmpty then
    .error .nothingFound
  else request.load tree

end ConfigRequest

end YamlStyle
