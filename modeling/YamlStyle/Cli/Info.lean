import YamlStyle.Cli.Lint

/-!
# The command that tells about itself

What the program is, and what it has been configured to do.
-/

set_option autoImplicit false

namespace YamlStyle

namespace Cli

/-- What there is to know about a program. -/
structure Package where
  name : String
  version : String
  description : String
  repository : String
  homepage : String
  license : String
  deriving DecidableEq, Repr

/-- This program. -/
def package : Package where
  name := "ymlint"
  version := "0.1.0"
  description := "Configurable style linter for YAML documents"
  repository := "https://github.com/ymlint/ymlint"
  homepage := "https://github.com/ymlint/ymlint"
  license := "MIT"

/-- What a configuration says about a rule, in short. -/
def summary : Setting → String
  | .toggle true => "enable"
  | .toggle false => "disable"
  | .options values => ", ".intercalate (values.map fun (name, v) => s!"{name}={v.describe}")

/-- What a configuration says, and the file that has the last word on it. -/
structure ConfigInfo where
  file : Option String
  config : Config
  deriving DecidableEq, Repr

namespace ConfigInfo

/-- The patterns of the ignore list. -/
def ignore (info : ConfigInfo) : List String := info.config.ignore.getD []

/-- The rules that are mentioned. -/
def rules (info : ConfigInfo) : List (String × String) :=
  info.config.settings.map fun (id, setting) => (id, summary setting)

/-- A configuration for other programs. What is not there is left out. -/
def toValue (info : ConfigInfo) : Value :=
  .table (
    (info.file.map fun file => ("config_file", Value.str file)).toList
    ++ [("log_level", .str info.config.logLevel.name)]
    ++ (info.config.logDir.map fun dir => ("log_dir", Value.str dir)).toList
    ++ (info.config.inputLimit?.map fun n => ("max_input_bytes", Value.int n)).toList
    ++ (if info.ignore.isEmpty then [] else [("ignore", .list (info.ignore.map .str))])
    ++ (if info.rules.isEmpty then []
      else [("rules", .list (info.rules.map fun (id, s) => .list [.str id, .str s]))]))

/-- The program and its configuration for other programs. -/
def fullValue (info : ConfigInfo) : Value :=
  .table [("name", .str package.name), ("version", .str package.version),
    ("description", .str package.description), ("repository", .str package.repository),
    ("homepage", .str package.homepage), ("license", .str package.license),
    ("config", info.toValue)]

/-- A line that gives something its name. -/
def labeled (label text : String) : String := s!"{Style.dimmed.paint label}: {text}"

/-- The program, as lines of text. -/
def packageLines : List String :=
  [s!"{Style.bold.paint package.name} {Style.green.paint package.version}", package.description,
    labeled "License" package.license, labeled "Repository" (Style.cyan.paint package.repository)]

/-- What a configuration says, as lines of text. -/
def configLines (info : ConfigInfo) : List String :=
  [Style.heading "Configuration",
    labeled "Config file"
      ((info.file.map Style.cyan.paint).getD (Style.yellow.paint "none loaded")),
    labeled "Log level" info.config.logLevel.name]
  ++ (info.config.logDir.map (labeled "Log directory")).toList
  ++ [labeled "Input limit"
      ((info.config.inputLimit?.map fun n => s!"{n} bytes").getD (Style.yellow.paint "disabled"))]
  ++ (if info.ignore.isEmpty then [] else [labeled "Ignore" (", ".intercalate info.ignore)])

/-- What a configuration says about rules, as lines of text. -/
def ruleLines (info : ConfigInfo) : List String :=
  Style.heading "Rules"
    :: (if info.rules.isEmpty then [Style.dimmed.paint "(defaults)"]
      else info.rules.map fun (id, s) => labeled id s)

/-- What is printed. -/
def render (info : ConfigInfo) (json : Bool) : String :=
  if json then Json.pretty info.fullValue ++ "\n"
  else unlines (separated [packageLines, info.configLines, info.ruleLines])

end ConfigInfo

/-- Tell about the program and its configuration. -/
def infoCommand (config : Config) (sources : ConfigSources) (json : Bool) : Outcome where
  stdout := ConfigInfo.render ⟨sources.primary?, config⟩ json

end Cli

end YamlStyle
