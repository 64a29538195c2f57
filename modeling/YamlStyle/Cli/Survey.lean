import YamlStyle.Cli.Run

/-!
# What a run looks at

A run is a function of a file tree, but nobody wants to read a whole file system for it. `places`
lists what a run may look at, so that only this has to be read. The list depends on what is already
known of the tree: the directory of the log may only become known when the configuration is.
-/

set_option autoImplicit false

namespace YamlStyle

namespace Cli

/-- The places a path passes from its start to its end. -/
def passed (place : Path) : List String → List Path
  | [] => [place]
  | name :: rest =>
    if name = "." then passed place rest
    else if name = ".." then place :: passed place.dropLast rest
    else place :: passed (place ++ [name]) rest

/-- The places a written path passes. -/
def passedBy (cwd : Path) (text : String) : List Path :=
  let (start, names) := FileTree.route cwd text
  passed [] start ++ passed start names

/-- The places where a configuration may be. -/
def configPlaces (request : ConfigRequest) : List Path :=
  let project := (request.search.map fun start => Written.ancestors start.toList).getD []
  let user := request.userDir.toList
  project.flatMap (fun dir =>
      (Search.projectNames ++ request.marker.toList).flatMap fun name =>
        passedBy request.cwd (String.ofList (Written.join dir name.toList)))
    ++ user.flatMap (fun dir => Search.userNames.map fun name => dir ++ [name])
    ++ request.explicit.flatMap (passedBy request.cwd)

/-- The places where a log is kept. -/
def logPlaces (world : World) (config : Config) : List Path :=
  match (LogTarget.ofWorld? world config).map (LogTarget.split world.date) with
  | some (.ok (dir, name)) =>
    passedBy world.cwd (String.ofList (Written.join dir.toList name.toList))
  | _ => []

/-- The places a command looks at. -/
def commandPlaces (cwd : Path) : Command → List Path
  | .lint files _ _ => files.flatMap (passedBy cwd)
  | _ => []

/-- The places a run may look at. -/
def places (world : World) (arguments : List String) : List Path :=
  match readArguments arguments with
  | .ok (some invocation) =>
    let entered := (invocation.chdir.map (passedBy world.cwd)).getD []
    let world := { world with cwd := entered.getLast?.getD world.cwd }
    let config :=
      match loadConfig world invocation.config with
      | .ok (config, _) => config
      | .error _ => {}
    entered ++ configPlaces (world.configRequest invocation.config) ++ logPlaces world config
      ++ (invocation.command.map (commandPlaces world.cwd)).getD []
  | _ => []

end Cli

end YamlStyle
