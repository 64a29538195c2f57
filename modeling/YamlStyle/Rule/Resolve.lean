import YamlStyle.Rule
import YamlStyle.Rule.Setting

/-!
# Resolving settings

Settings are checked against a catalog once, before any document is looked at. The outcome lists the
rules that will run, in the order of the catalog, each with a value for every option it declares.

Rules and options are checked in the order of their names, and the first that does not fit is the one
that is reported.
-/

set_option autoImplicit false

namespace YamlStyle

/-- Why settings do not fit a catalog. -/
inductive SettingsError where
  | unknownRule (rule : String)
  | unknownOption (rule option : String)
  | invalidOption (rule option expected : String)
  deriving DecidableEq, Repr

/-- The wording of an error. -/
def SettingsError.message : SettingsError → String
  | .unknownRule rule => s!"unknown rule: {rule}"
  | .unknownOption rule option => s!"unknown option '{option}' for rule {rule}"
  | .invalidOption rule option expected =>
    s!"invalid value for option '{option}' of rule {rule}: expected {expected}"

namespace Rule

/-- Give a value to one option. -/
def applyOption (rule : Rule) (options : RuleOptions) (name : String) (value : OptionValue) :
    Except SettingsError RuleOptions :=
  if name = levelOption then
    match value with
    | .str s =>
      match Level.ofName? s with
      | some level => .ok { options with level := level }
      | none => .error (.invalidOption rule.id name "one of error, warning")
    | _ => .error (.invalidOption rule.id name "one of error, warning")
  else
    match rule.option? name with
    | none => .error (.unknownOption rule.id name)
    | some spec =>
      if spec.kind.accepts value then .ok (options.set name value)
      else .error (.invalidOption rule.id name spec.kind.describe)

/-- Give values to options, one after the other. -/
def applyOptions (rule : Rule) (options : RuleOptions) :
    List (String × OptionValue) → Except SettingsError RuleOptions
  | [] => .ok options
  | (name, value) :: rest =>
    match rule.applyOption options name value with
    | .ok options => rule.applyOptions options rest
    | .error e => .error e

/-- The options of a rule with some values given. -/
def resolveOptions (rule : Rule) (values : Table OptionValue) : Except SettingsError RuleOptions :=
  rule.applyOptions rule.defaultOptions values

/-- What a setting makes of a rule: its options if it is to run, nothing if it is not. -/
def applySetting (rule : Rule) : Setting → Except SettingsError (Option RuleOptions)
  | .toggle true => .ok (some rule.defaultOptions)
  | .toggle false => .ok none
  | .options values => (rule.resolveOptions values).map some

end Rule

/-- The rules that run, and the names of all rules there are. -/
structure Resolved where
  /-- In the order of the catalog. -/
  rules : List (Rule × RuleOptions)
  known : List String

namespace Resolved

/-- Check settings one after the other, and say for each rule they mention what becomes of it. -/
def outcomes (catalog : Catalog) : Settings → Except SettingsError (Table (Option RuleOptions))
  | [] => .ok []
  | (id, setting) :: rest =>
    match catalog.find? id with
    | none => .error (.unknownRule id)
    | some rule =>
      match rule.applySetting setting with
      | .error e => .error e
      | .ok outcome => (outcomes catalog rest).map ((id, outcome) :: ·)

/-- The options with which a rule runs, if it does. A rule nobody mentions runs if it is enabled by
default. -/
def optionsOf (decided : Table (Option RuleOptions)) (rule : Rule) : Option RuleOptions :=
  match decided.get? rule.id with
  | some outcome => outcome
  | none => if rule.enabledByDefault then some rule.defaultOptions else none

/-- The rules of a catalog that run. -/
def select (catalog : Catalog) (decided : Table (Option RuleOptions)) : Resolved :=
  ⟨catalog.filterMap fun rule => (optionsOf decided rule).map (rule, ·), catalog.ids⟩

/-- The rules that run when there are no settings. -/
def defaults (catalog : Catalog) : Resolved :=
  ⟨(catalog.filter (·.enabledByDefault)).map fun rule => (rule, rule.defaultOptions), catalog.ids⟩

/-- Check settings against a catalog and lay them over its defaults. -/
def resolve (catalog : Catalog) (settings : Settings) : Except SettingsError Resolved :=
  (outcomes catalog settings).map (select catalog)

/-- Whether a rule runs. -/
def isEnabled (resolved : Resolved) (id : String) : Bool := resolved.rules.any (·.1.id == id)

/-- The value of an option of a rule that runs. -/
def option? (resolved : Resolved) (id name : String) : Option OptionValue :=
  match resolved.rules.find? (·.1.id == id) with
  | some (_, options) => options.get? name
  | none => none

/-- Whether one of the rules that run inspects tokens. -/
def needsTokens (resolved : Resolved) : Bool := resolved.rules.any (·.1.granularity == .token)

end Resolved

end YamlStyle
