import YamlStyle.Text.Quoted
import YamlStyle.Value

/-!
# Values that are not what was asked for

When a value cannot be read as what it should be, the message names what was found and what was
expected instead. This module holds the wording and nothing else.
-/

set_option autoImplicit false

namespace YamlStyle

/-- What a value is, in the words of a message. -/
def Value.describe : Value → String
  | .null => "null"
  | .bool true => "boolean `true`"
  | .bool false => "boolean `false`"
  | .int n => s!"integer `{n}`"
  | .float text => s!"floating point `{text}`"
  | .char c => s!"character `{c}`"
  | .str s => s!"string {Quoted.render s.toList}"
  | .list _ => "sequence"
  | .table _ => "map"

/-- Why a value could not be read. -/
inductive Mismatch where
  /-- The value has the wrong type. -/
  | type (found : Value) (expected : String)
  /-- The value has the right type and is out of range. -/
  | range (found : Value) (expected : String)
  /-- A list has the wrong number of items. -/
  | length (found : Nat) (expected : String)
  /-- A word is none of those allowed. -/
  | word (found : String) (allowed : List String)
  /-- An entry is missing. -/
  | missing (name : String)
  /-- No reading of the value fits; `what` names what was to be read. -/
  | noMatch (what : String)
  deriving Repr

/-- Words in the way a message lists them. -/
def Mismatch.listed : List String → String
  | [] => "nothing"
  | [a] => s!"`{a}`"
  | [a, b] => s!"`{a}` or `{b}`"
  | words => "one of " ++ ", ".intercalate (words.map fun w => s!"`{w}`")

/-- The wording of a mismatch. -/
def Mismatch.message : Mismatch → String
  | .type found expected => s!"invalid type: {found.describe}, expected {expected}"
  | .range found expected => s!"invalid value: {found.describe}, expected {expected}"
  | .length found expected => s!"invalid length {found}, expected {expected}"
  | .word found allowed => s!"unknown variant `{found}`, expected {listed allowed}"
  | .missing name => s!"missing field `{name}`"
  | .noMatch what => s!"data did not match any variant of untagged enum {what}"

namespace Value

/-- A word out of a fixed list. A word may also be written as a table whose only entry is the word,
set to null. -/
def word {α : Type} (allowed : List (String × α)) : Value → Except Mismatch α
  | .str s => pick s
  | .table [(s, v)] => do
    let a ← pick s
    match v with
    | .null => pure a
    | v => throw (.type v "unit")
  | v@(.table _) => .error (.range v "map with a single key")
  | v => .error (.type v "string or map")
where
  /-- Look a word up. -/
  pick (s : String) : Except Mismatch α :=
    match allowed.lookup s with
    | some a => .ok a
    | none => .error (.word s (allowed.map (·.1)))

end Value

end YamlStyle
