import YamlStyle.Problem
import YamlStyle.Value.Mismatch

/-!
# Problems as values

The form in which problems are handed to other programs, and read back. Entries are written in a
fixed order and read in the order of their names; entries with other names are passed over. A problem
may also be a list of what it consists of, in the order in which the entries are written.
-/

set_option autoImplicit false

namespace YamlStyle

/-- The levels by name, the least serious first. -/
def Level.words : List (String × Level) := [("warning", .warning), ("error", .error)]

namespace Problem

/-- Write a problem. -/
def toValue (p : Problem) : Value :=
  .table [("line", .int p.line), ("column", .int p.column), ("message", .str p.message),
    ("rule", .str p.rule), ("level", .str p.level.name)]

/-- Read a line or column. -/
def natOfValue : Value → Except Mismatch Nat
  | .int n =>
    if 0 ≤ n ∧ n ≤ Value.maxNat then .ok n.toNat else .error (.range (.int n) "usize")
  | v => .error (.type v "usize")

/-- Read a string. -/
def stringOfValue : Value → Except Mismatch String
  | .str s => .ok s
  | v => .error (.type v "a string")

/-- Read an entry if it is there. -/
def entry? {α : Type} (read : Value → Except Mismatch α) (v : Value) (name : String) :
    Except Mismatch (Option α) :=
  match v.get? name with
  | some w => (read w).map some
  | none => .ok none

/-- An entry that has to be there. -/
def require {α : Type} (name : String) : Option α → Except Mismatch α
  | some a => .ok a
  | none => .error (.missing name)

/-- Read a problem from entries. What is there is read first; only then is something missed. -/
def ofEntries (v : Value) : Except Mismatch Problem := do
  let column ← entry? natOfValue v "column"
  let level ← entry? (Value.word Level.words) v "level"
  let line ← entry? natOfValue v "line"
  let message ← entry? stringOfValue v "message"
  let rule ← entry? stringOfValue v "rule"
  let line ← require "line" line
  let column ← require "column" column
  let message ← require "message" message
  let rule ← require "rule" rule
  let level ← require "level" level
  pure ⟨line, column, message, rule, level⟩

/-- The item of a list at an index. -/
def item {α : Type} (read : Value → Except Mismatch α) (items : List Value) (index : Nat) :
    Except Mismatch α :=
  match items[index]? with
  | some v => read v
  | none => .error (.length index "struct Problem with 5 elements")

/-- Read a problem from a list. -/
def ofItems (items : List Value) : Except Mismatch Problem := do
  let line ← item natOfValue items 0
  let column ← item natOfValue items 1
  let message ← item stringOfValue items 2
  let rule ← item stringOfValue items 3
  let level ← item (Value.word Level.words) items 4
  if 5 < items.length then throw (.length items.length "fewer elements in array")
  pure ⟨line, column, message, rule, level⟩

/-- Read a problem. -/
def ofValue : Value → Except Mismatch Problem
  | v@(.table _) => ofEntries v
  | .list items => ofItems items
  | v => .error (.type v "struct Problem")

/-- Read a list of problems. -/
def listOfValue : Value → Except Mismatch (List Problem)
  | .list vs => vs.mapM ofValue
  | v => .error (.type v "a sequence")

end Problem

end YamlStyle
