/-!
# Findings

A rule reports **violations**: a place and a message. The engine turns each into a **problem** by
adding which rule spoke and how serious it is. Column 0 stands for the whole line.

Problems are reported by line, then by column, then by the name of the rule, and otherwise in the
order in which they were found.
-/

set_option autoImplicit false

namespace YamlStyle

/-- How serious a problem is. -/
inductive Level where
  /-- Reported, and no more. -/
  | warning
  /-- Fails the document. -/
  | error
  deriving DecidableEq, Repr, Inhabited

namespace Level

/-- The written form of a level. -/
def name : Level → String
  | .warning => "warning"
  | .error => "error"

/-- The level of a written form. -/
def ofName? (s : String) : Option Level :=
  if s = "warning" then some .warning else if s = "error" then some .error else none

/-- A warning is less serious than an error. -/
def rank : Level → Nat
  | .warning => 0
  | .error => 1

/-- Whether a level is as serious as `least`, or more. -/
def atLeast (level least : Level) : Bool := decide (least.rank ≤ level.rank)

end Level

/-- What a rule has to say. -/
structure Violation where
  line : Nat
  /-- Column from 1, or 0 for the whole line. -/
  column : Nat
  message : String
  deriving DecidableEq, Repr

/-- A violation and who reported it. -/
structure Problem where
  line : Nat
  column : Nat
  message : String
  rule : String
  level : Level
  deriving DecidableEq, Repr

namespace Problem

/-- The name under which structural faults of a document are reported. -/
def syntaxRule : String := "syntax"

/-- The name under which faults of a rule are reported. -/
def internalRule : String := "internal-error"

/-- The problem that a violation of a rule is. -/
def ofViolation (rule : String) (level : Level) (v : Violation) : Problem :=
  ⟨v.line, v.column, v.message, rule, level⟩

/-- One line that shows a problem. -/
def describe (p : Problem) : String :=
  s!"{p.line}:{p.column} [{p.level.name}] {p.message} ({p.rule})"

/-- Whether `p` is reported no later than `q`. -/
def reportLE (p q : Problem) : Bool :=
  if p.line ≠ q.line then decide (p.line < q.line)
  else if p.column ≠ q.column then decide (p.column < q.column)
  else decide (p.rule ≤ q.rule)

/-- Problems in the order in which they are reported. -/
def sort (problems : List Problem) : List Problem := problems.mergeSort reportLE

/-- Whether one of the problems is an error. -/
def anyError (problems : List Problem) : Bool := problems.any (·.level == .error)

end Problem

end YamlStyle
