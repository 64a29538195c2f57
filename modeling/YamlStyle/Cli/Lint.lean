import YamlStyle.Cli.Style
import YamlStyle.Cli.World
import YamlStyle.Lint
import YamlStyle.Problem.Value
import YamlStyle.Value.Json

/-!
# The command that lints

Files are linted in the order in which they are named, those on the ignore list left out. The first
one that cannot be read ends the run, and nothing is reported then.
-/

set_option autoImplicit false

namespace YamlStyle

namespace Cli

/-- A file and the problems in it that count. -/
structure FileReport where
  file : String
  problems : List Problem
  deriving DecidableEq, Repr

/-- What has been found. -/
structure LintReport where
  files : List FileReport := []
  /-- Files that were left out. -/
  ignored : List String := []
  deriving DecidableEq, Repr

/-- Read a file that has no more bytes than the limit. -/
def readInput (world : World) (limit : Option Nat) (file : String) : Except Failure String :=
  match world.tree.size world.cwd file with
  | .error e => .error (.ofIoError s!"failed to read {file}" e)
  | .ok size =>
    match limit.filter (· < size) with
    | some limit =>
      .error ⟨s!"input too large: {file} is {size} bytes (limit: {limit} bytes)", []⟩
    | none => (world.tree.readText world.cwd file).mapError (.ofIoError s!"failed to read {file}")

/-- Whether a problem is serious enough. -/
def counts (minLevel : Option Level) (p : Problem) : Bool :=
  match minLevel with
  | none => true
  | some least => p.level.atLeast least

namespace LintReport

/-- Lint files one after the other. -/
def ofFiles (world : World) (linter : Linter) (ignore : IgnoreList) (limit : Option Nat)
    (minLevel : Option Level) : List String → Except Failure LintReport
  | [] => .ok {}
  | file :: rest =>
    if ignore.isIgnored file then do
      let report ← ofFiles world linter ignore limit minLevel rest
      pure { report with ignored := file :: report.ignored }
    else do
      let text ← readInput world limit file
      let problems := (linter.lint text.toList).filter (counts minLevel)
      let report ← ofFiles world linter ignore limit minLevel rest
      pure { report with files := ⟨file, problems⟩ :: report.files }

/-- All problems. -/
def problems (report : LintReport) : List Problem := report.files.flatMap (·.problems)

/-- The number of problems of a level. -/
def count (report : LintReport) (level : Level) : Nat :=
  report.problems.countP (·.level == level)

/-- The exit code: 1 if there are errors, and 2 if there are warnings and it is strict. -/
def exit (report : LintReport) (strict : Bool) : Nat :=
  if 0 < report.count .error then 1
  else if strict ∧ 0 < report.count .warning then 2
  else 0

/-- A report for other programs. -/
def toValue (report : LintReport) : Value :=
  .table (
    [("files", .list (report.files.map fun r =>
      .table [("file", .str r.file), ("problems", .list (r.problems.map Problem.toValue))]))]
    ++ (if report.ignored.isEmpty then [] else [("ignored", .list (report.ignored.map .str))])
    ++ [("errors", .int (report.count .error)), ("warnings", .int (report.count .warning))])

/-- A problem as a line of text. -/
def problemLine (p : Problem) : String :=
  let place := Style.dimmed.paint (padRight 8 s!"{p.line}:{p.column}")
  let level :=
    match p.level with
    | .error => Style.red.paint p.level.name
    | .warning => Style.yellow.paint p.level.name
  let rule := Style.dimmed.paint s!"({p.rule})"
  s!"  {place} {level}  {p.message}  {rule}"

/-- A report as lines of text: the files that have problems. -/
def textLines (report : LintReport) : List String :=
  separated ((report.files.filter fun r => !r.problems.isEmpty).map fun r =>
    Style.heading r.file :: r.problems.map problemLine)

/-- What is printed of a report. -/
def render (report : LintReport) (json : Bool) : String :=
  if json then Json.pretty report.toValue ++ "\n" else unlines report.textLines

end LintReport

/-- The linter of a configuration. -/
def configuredLinter (config : Config) : Except Failure Linter :=
  config.linter.mapError fun e => ⟨"invalid rule configuration", [e.message]⟩

/-- The ignore list of a configuration. -/
def configuredIgnoreList (config : Config) : Except Failure IgnoreList :=
  config.ignoreList.mapError fun e =>
    ⟨"invalid ignore configuration", [e.message, e.causeMessage]⟩

/-- Lint the files that are named. -/
def lintCommand (world : World) (config : Config) (json : Bool) (files : List String)
    (minLevel : Option Level) (strict : Bool) : Except Failure Outcome := do
  let linter ← configuredLinter config
  let ignore ← configuredIgnoreList config
  let report ← LintReport.ofFiles world linter ignore config.inputLimit? minLevel files
  pure { exit := report.exit strict, stdout := report.render json }

end Cli

end YamlStyle
