import YamlStyle.Cli.Lint

/-!
# The command that lists rules

Every rule is listed with its options, whether it is enabled by the configuration or not. The value
of an option is shown beside its default where the two differ.
-/

set_option autoImplicit false

namespace YamlStyle

namespace Cli

/-- A rule as it is listed: with the values of its options that are not the default. -/
structure RuleInfo where
  rule : Rule
  enabled : Bool
  options : List (OptionSpec × Option OptionValue)

namespace RuleInfo

/-- What there is to say about a rule. -/
def ofRule (resolved : Resolved) (rule : Rule) : RuleInfo where
  rule := rule
  enabled := resolved.isEnabled rule.id
  options := rule.options.map fun spec =>
    (spec, (resolved.option? rule.id spec.name).filter (· != spec.default))

/-- An option for other programs. -/
def optionValue (spec : OptionSpec) (configured : Option OptionValue) : Value :=
  .table (
    [("name", .str spec.name), ("accepts", .str spec.kind.describe),
      ("default", spec.default.toValue)]
    ++ (configured.map fun v => ("configured", v.toValue)).toList
    ++ [("description", .str spec.description)])

/-- A rule for other programs. -/
def toValue (info : RuleInfo) : Value :=
  .table [("id", .str info.rule.id), ("description", .str info.rule.description),
    ("granularity", .str info.rule.granularity.name),
    ("enabled_by_default", .bool info.rule.enabledByDefault), ("enabled", .bool info.enabled),
    ("options", .list (info.options.map fun (spec, configured) => optionValue spec configured))]

/-- An option as a line of text. -/
def optionLine (spec : OptionSpec) (configured : Option OptionValue) : String :=
  let value :=
    match configured with
    | some v => s!"{v.describe} (default {spec.default.describe})"
    | none => spec.default.describe
  s!"  {Style.yellow.paint spec.name} = {value}  {Style.dimmed.paint spec.description}"

/-- A rule as lines of text. -/
def textLines (info : RuleInfo) : List String :=
  let state := if info.enabled then Style.green.paint "enabled" else Style.dimmed.paint "disabled"
  let granularity := Style.cyan.paint s!"[{info.rule.granularity.name}]"
  s!"{Style.bold.paint info.rule.id} {granularity} {state}"
    :: s!"  {info.rule.description}"
    :: info.options.map fun (spec, configured) => optionLine spec configured

/-- What is printed of some rules. -/
def render (infos : List RuleInfo) (json : Bool) : String :=
  if json then Json.pretty (.list (infos.map toValue)) ++ "\n"
  else unlines (separated (infos.map textLines))

end RuleInfo

/-- List rules: all, or those that are enabled. -/
def rulesCommand (config : Config) (json enabledOnly : Bool) : Except Failure Outcome := do
  let linter ← configuredLinter config
  let infos := standardCatalog.map (RuleInfo.ofRule linter.config)
  let listed := infos.filter fun info => !enabledOnly || info.enabled
  pure { stdout := RuleInfo.render listed json }

end Cli

end YamlStyle
