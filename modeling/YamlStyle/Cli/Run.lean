import YamlStyle.Cli.Arguments
import YamlStyle.Cli.Info
import YamlStyle.Cli.Logging
import YamlStyle.Cli.Rules

/-!
# A run of the command line

The steps of a run, each of which may end it: read the arguments, go to the working directory, load
the configuration, start the log, do what the command is for.
-/

set_option autoImplicit false

namespace YamlStyle

namespace Cli

/-- A short account of the arguments. -/
def helpText : String :=
  unlines [package.description, "",
    s!"Usage: {package.name} [OPTIONS] [COMMAND]", "",
    "Commands:",
    "  lint [--min-level <LEVEL>] [--strict] <FILE>...  Lint YAML files",
    "  rules [--enabled]                                List available rules and their options",
    "  info                                             Show package and configuration information",
    "",
    "Options:",
    "      --version-only   Print only the version number (for scripting)",
    "  -c, --config <FILE>  Path to configuration file (merged over discovered config)",
    "  -C, --chdir <CHDIR>  Run as if started in DIR",
    "  -q, --quiet          Only print errors (suppresses warnings/info)",
    "  -v, --verbose...     More detail (repeatable; e.g. -vv)",
    "      --color <COLOR>  Colorize output [possible values: auto, always, never]",
    "      --json           Output as JSON (for scripting)",
    "  -h, --help           Print help",
    "  -V, --version        Print version"]

/-- The outcome of a run that ends with its arguments. -/
def Halt.outcome : Halt → Outcome
  | .usage e =>
    { exit := 2, stderr := s!"error: {e.message}\n\nFor more information, try '--help'.\n" }
  | .help => { stdout := helpText }
  | .version => { stdout := s!"{package.name} {package.version}\n" }

/-- Do what a command is for. -/
def runCommand (world : World) (config : Config) (sources : ConfigSources) (json : Bool) :
    Command → Except Failure Outcome
  | .lint files minLevel strict => lintCommand world config json files minLevel strict
  | .rules enabledOnly => rulesCommand config json enabledOnly
  | .info => .ok (infoCommand config sources json)

/-- Run a command once its configuration has been loaded. -/
def runLogged (world : World) (config : Config) (sources : ConfigSources) (json : Bool)
    (command : Command) : Outcome :=
  match startLog world config with
  | .error e => e.outcome
  | .ok (tree, log) =>
    let outcome :=
      match runCommand { world with tree } config sources json command with
      | .ok outcome => outcome
      | .error failure => failure.outcome
    { outcome with created := log.toList }

/-- Go to the directory that was asked for. -/
def enter (world : World) : Option String → Except Failure World
  | none => .ok world
  | some dir =>
    match world.tree.changeDirectory world.cwd dir with
    | .ok cwd => .ok { world with cwd }
    | .error e => .error (.ofIoError s!"failed to change directory to {dir}" e)

/-- The outcome of a run that has no configuration. -/
def loadOutcome (e : LoadError) : Outcome :=
  match e with
  | .brokenVariable _ => { exit := 101, stderr := e.message ++ "\n" }
  | _ => Failure.outcome ⟨"failed to load configuration", [e.message]⟩

/-- Load the configuration. -/
def loadConfig (world : World) (explicit : Option String) :
    Except LoadError (Config × ConfigSources) :=
  (world.configRequest explicit).load world.tree

/-- Do what was asked for. -/
def invoke (world : World) (invocation : Invocation) : Outcome :=
  if invocation.versionOnly then { stdout := package.version ++ "\n" }
  else
    match invocation.command with
    | none => {}
    | some command =>
      match enter world invocation.chdir with
      | .error failure => failure.outcome
      | .ok world =>
        match loadConfig world invocation.config with
        | .error e => loadOutcome e
        | .ok (config, sources) => runLogged world config sources invocation.json command

/-- A run of the command line. -/
def run (world : World) (arguments : List String) : Outcome :=
  match readArguments arguments with
  | .error halt => halt.outcome
  | .ok none => { exit := 2, stderr := helpText }
  | .ok (some invocation) => invoke world invocation

end Cli

end YamlStyle
