import YamlStyle.Rule.Option
import YamlStyle.Value.Mismatch

/-!
# Settings of rules

What a configuration says about a rule: switch it on or off, or give values to some of its options,
which switches it on as well. Whether the rule exists and takes such options is not asked here.

A toggle is written as the word `enable` or `disable`, or as a table with that word as its only entry
and no value. Every other table is a table of options, also one whose only option happens to be named
`enable`.
-/

set_option autoImplicit false

namespace YamlStyle

/-- What a configuration says about one rule. -/
inductive Setting where
  /-- Switch the rule on or off. -/
  | toggle (on : Bool)
  /-- Switch the rule on, with values for some of its options. -/
  | options (values : Table OptionValue)
  deriving DecidableEq, Repr

/-- What a configuration says about rules. -/
abbrev Settings := Table Setting

/-- Read the value of an option. -/
def OptionValue.ofValue? : Value → Option OptionValue
  | .bool b => some (.bool b)
  | .int n => if Value.minInt ≤ n ∧ n ≤ Value.maxInt then some (.int n) else none
  | .str s => some (.str s)
  | _ => none

/-- Write the value of an option. -/
def OptionValue.toValue : OptionValue → Value
  | .bool b => .bool b
  | .int n => .int n
  | .str s => .str s

namespace Setting

/-- The toggle a word stands for. -/
def ofWord? (s : String) : Option Setting :=
  if s = "enable" then some (.toggle true)
  else if s = "disable" then some (.toggle false)
  else none

/-- Read a table of options. -/
def optionTable? : List (String × Value) → Option (Table OptionValue)
  | [] => some []
  | (name, v) :: rest => do
    let value ← OptionValue.ofValue? v
    let values ← optionTable? rest
    pure ((name, value) :: values)

/-- Read a setting. -/
def ofValue? : Value → Option Setting
  | .str s => ofWord? s
  | .table entries =>
    match entries with
    | [(name, .null)] => ofWord? name
    | _ => (optionTable? entries).map .options
  | _ => none

/-- Write a setting. -/
def toValue : Setting → Value
  | .toggle true => .str "enable"
  | .toggle false => .str "disable"
  | .options values => .table (values.map fun (name, v) => (name, v.toValue))

end Setting

namespace Settings

/-- What the failed reading of a single setting is called in a message. -/
def noMatch : Mismatch := .noMatch "RuleSetting"

/-- Read the settings of some rules. Of an unreadable setting the rule is named, too. -/
def ofEntries : List (String × Value) → Except (String × Mismatch) Settings
  | [] => .ok []
  | (id, v) :: rest =>
    match Setting.ofValue? v with
    | none => .error (id, noMatch)
    | some s => (ofEntries rest).map ((id, s) :: ·)

/-- Read settings. -/
def ofValue : Value → Except Mismatch Settings
  | .table entries => (ofEntries entries).mapError (·.2)
  | v => .error (.type v "a map")

/-- Write settings. -/
def toValue (settings : Settings) : Value :=
  .table (settings.map fun (id, s) => (id, s.toValue))

/-- Settings with others laid over them: where both speak of a rule, the other one counts. -/
def overlay (base top : Settings) : Settings := base.insertAll top

end Settings

end YamlStyle
