import YamlStyle.Line
import YamlStyle.Rule.Option
import YamlStyle.Token.Window

/-!
# Rules

A rule inspects a document line by line or token by token. It is built anew for every document from
its options, and what it then does is a **check**: a function of what it looks at and of everything
that came before. A check has no memory of its own. Whatever a rule wants to remember can be
recomputed from the lines or tokens that came before, and so nothing can leak from one document into
the next.

Building and checking may fail. A `Fault` is the trace that a failure leaves; the engine reports it
and goes on with the other rules.
-/

set_option autoImplicit false

namespace YamlStyle

/-- What a rule inspects. -/
inductive Granularity where
  | line
  | token
  deriving DecidableEq, Repr

/-- The written form of a granularity. -/
def Granularity.name : Granularity → String
  | .line => "line"
  | .token => "token"

/-- Why a rule failed. -/
inductive Fault where
  /-- The rule said why. -/
  | because (reason : String)
  /-- The rule failed without a word. -/
  | unexplained
  deriving DecidableEq, Repr

/-- The reason of a fault, in the words of a message. -/
def Fault.reason : Fault → String
  | .because reason => reason
  | .unexplained => "unknown panic"

/-- A rule at work on one document. -/
inductive Checker where
  /-- Looks at a line, knowing the lines above it, the nearest first. -/
  | line (check : List Line → Line → Except Fault (List Violation))
  /-- Looks at a token, knowing its surroundings. -/
  | token (check : Window → Except Fault (List Violation))

/-- What a checker inspects. -/
def Checker.granularity : Checker → Granularity
  | .line _ => .line
  | .token _ => .token

/-- A rule of the linter. -/
structure Rule where
  /-- The name that configuration, directives and problems use. -/
  id : String
  description : String
  /-- What the rule says it inspects. -/
  granularity : Granularity
  /-- Whether the rule runs when nobody mentions it. -/
  enabledByDefault : Bool
  /-- The options the rule declares. -/
  options : List OptionSpec
  /-- Make the rule ready for a document. -/
  build : RuleOptions → Except Fault Checker

/-- The rules there are, in the order in which they run. -/
abbrev Catalog := List Rule

namespace Rule

/-- A declared option. -/
def option? (rule : Rule) (name : String) : Option OptionSpec :=
  rule.options.find? (·.name == name)

/-- Every option at its default. -/
def defaultOptions (rule : Rule) : RuleOptions := RuleOptions.defaults rule.options

end Rule

namespace Catalog

/-- The rule of a name. -/
def find? (catalog : Catalog) (id : String) : Option Rule := List.find? (·.id == id) catalog

/-- The names of all rules. -/
def ids (catalog : Catalog) : List String := catalog.map (·.id)

end Catalog

end YamlStyle
