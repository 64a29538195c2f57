import YamlStyle.Problem
import YamlStyle.Table
import YamlStyle.Text.Quoted

/-!
# Options of rules

A rule declares its options: name, kind, default. A configuration gives values for some of them. What
a rule gets to see is a `RuleOptions`: a value for every option it declared, and the level at which
it reports, which every rule can be given and none declares.
-/

set_option autoImplicit false

namespace YamlStyle

/-- The value of an option. -/
inductive OptionValue where
  | bool (b : Bool)
  | int (n : Int)
  | str (s : String)
  deriving DecidableEq, Repr

/-- How a value is shown. -/
def OptionValue.describe : OptionValue → String
  | .bool true => "true"
  | .bool false => "false"
  | .int n => toString n
  | .str s => Quoted.render s.toList

/-- Which values an option takes. -/
inductive OptionKind where
  | bool
  | int
  | str
  /-- A string out of a fixed list. -/
  | oneOf (allowed : List String)
  deriving DecidableEq, Repr

namespace OptionKind

/-- Whether a value is of a kind. -/
def accepts : OptionKind → OptionValue → Bool
  | .bool, .bool _ => true
  | .int, .int _ => true
  | .str, .str _ => true
  | .oneOf allowed, .str s => allowed.contains s
  | _, _ => false

/-- The values of a kind, in the words of a message. -/
def describe : OptionKind → String
  | .bool => "a boolean"
  | .int => "an integer"
  | .str => "a string"
  | .oneOf allowed => "one of " ++ ", ".intercalate allowed

end OptionKind

/-- An option as a rule declares it. -/
structure OptionSpec where
  name : String
  kind : OptionKind
  default : OptionValue
  description : String
  deriving DecidableEq, Repr

/-- The name of the option that every rule takes. -/
def levelOption : String := "level"

/-- The options of an enabled rule. -/
structure RuleOptions where
  level : Level
  values : Table OptionValue
  deriving DecidableEq, Repr

namespace RuleOptions

/-- Every declared option at its default. -/
def defaults (declared : List OptionSpec) : RuleOptions :=
  ⟨.error, Table.ofList (declared.map fun o => (o.name, o.default))⟩

/-- Set an option. -/
def set (options : RuleOptions) (name : String) (value : OptionValue) : RuleOptions :=
  { options with values := options.values.insert name value }

/-- The value of an option. -/
def get? (options : RuleOptions) (name : String) : Option OptionValue := options.values.get? name

/-- The value of an integer option. -/
def int? (options : RuleOptions) (name : String) : Option Int :=
  match options.get? name with
  | some (.int n) => some n
  | _ => none

/-- The value of a boolean option. -/
def bool? (options : RuleOptions) (name : String) : Option Bool :=
  match options.get? name with
  | some (.bool b) => some b
  | _ => none

/-- The value of a string option. -/
def str? (options : RuleOptions) (name : String) : Option String :=
  match options.get? name with
  | some (.str s) => some s
  | _ => none

end RuleOptions

end YamlStyle
