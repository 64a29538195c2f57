import YamlStyle.Directive
import YamlStyle.Problem
import YamlStyle.Token.Window

/-!
# Suppressions

Directives silence rules on some of the lines of a document. `Suppressions.collect` reads the comment
tokens from first to last and turns the directives among them into **intervals**: which rules, on
which lines.

While it reads it remembers what is disabled at the moment and since which line, the blanket disable
apart from the disables of single rules. Enabling closes what is open, on the line above. Enabling
single rules under a blanket disable dissolves the blanket: it is closed, and every *other* known
rule is disabled one by one from here on. What is still open at the end stays so for the rest of the
document.

A line directive applies to its own line if something other than comments and line breaks ends there
before it, and to the next line otherwise.
-/

set_option autoImplicit false

namespace YamlStyle

/-- The rules an interval is about. -/
inductive Scope where
  | all
  | rules (names : List String)
  deriving DecidableEq, Repr

/-- Whether a scope includes a rule. -/
def Scope.covers : Scope → String → Bool
  | .all, _ => true
  | .rules names, rule => names.contains rule

/-- The lines an interval is about. -/
inductive Span where
  /-- One line. -/
  | line (number : Nat)
  /-- From the first line to the last, both included. -/
  | range (first last : Nat)
  /-- From a line to the end of the document. -/
  | onward (first : Nat)
  deriving DecidableEq, Repr

/-- Whether a span includes a line. -/
def Span.contains : Span → Nat → Bool
  | .line n, l => l == n
  | .range first last, l => decide (first ≤ l) && decide (l ≤ last)
  | .onward first, l => decide (first ≤ l)

/-- Rules that are silent on some lines. -/
structure Interval where
  scope : Scope
  span : Span
  deriving DecidableEq, Repr

/-- Everything that is silenced in a document. -/
structure Suppressions where
  /-- In the order in which they were closed. -/
  intervals : List Interval
  /-- Whether the document as a whole is silenced. -/
  fileDisabled : Bool
  deriving DecidableEq, Repr

namespace Suppressions

/-- Nothing is silenced. -/
def nothing : Suppressions := ⟨[], false⟩

/-- Whether nothing is silenced. -/
def isEmpty (s : Suppressions) : Bool := !s.fileDisabled && s.intervals.isEmpty

/-- Whether findings of a rule are silent on a line. Faults of the document or of a rule are silent
only if the whole document is. -/
def isSuppressed (s : Suppressions) (rule : String) (line : Nat) : Bool :=
  s.fileDisabled
    || (rule != Problem.syntaxRule && rule != Problem.internalRule
      && s.intervals.any fun i => i.span.contains line && i.scope.covers rule)

/-! ## Reading the directives of a document -/

/-- What has been collected, and what is disabled at the moment. -/
structure Ledger where
  found : Suppressions
  /-- The line since which all rules are disabled, if they are. -/
  blanket : Option Nat
  /-- The rules disabled by name, and since which line. -/
  single : Table Nat
  deriving DecidableEq, Repr

/-- The ledger before the first directive. -/
def Ledger.empty : Ledger := ⟨nothing, none, []⟩

/-- The interval that a disable leaves behind when it is enabled again. On one and the same line it
leaves nothing. -/
def closed (scope : Scope) (first line : Nat) : List Interval :=
  if first < line then [⟨scope, .range first (line - 1)⟩] else []

/-- The scope of a directive. -/
def scopeOf : List String → Scope
  | [] => .all
  | names => .rules names

namespace Ledger

/-- Add intervals. -/
def record (ledger : Ledger) (intervals : List Interval) : Ledger :=
  { ledger with found.intervals := ledger.found.intervals ++ intervals }

/-- Disable each of some rules by name from a line on. A rule that is disabled by name already stays
so from where it was. -/
def disableEach (ledger : Ledger) (line : Nat) (names : List String) : Ledger :=
  { ledger with single := names.foldl (fun t name => t.insertIfNew name line) ledger.single }

/-- Disable rules from a line on, all of them if none is named. A blanket disable that is in force
stays so from where it was. -/
def disable (ledger : Ledger) (line : Nat) : List String → Ledger
  | [] => { ledger with blanket := some (ledger.blanket.getD line) }
  | names => ledger.disableEach line names

/-- Close the blanket disable. -/
def closeBlanket (ledger : Ledger) (line : Nat) : Ledger :=
  match ledger.blanket with
  | some first => { ledger.record (closed .all first line) with blanket := none }
  | none => ledger

/-- Close the disable of one rule. -/
def closeSingle (ledger : Ledger) (line : Nat) (name : String) : Ledger :=
  match ledger.single.get? name with
  | some first =>
    { ledger.record (closed (.rules [name]) first line) with single := ledger.single.erase name }
  | none => ledger

/-- Enable every rule. -/
def enableAll (ledger : Ledger) (line : Nat) : Ledger :=
  let ledger := ledger.closeBlanket line
  ledger.single.keys.foldl (fun l name => l.closeSingle line name) ledger

/-- Enable the named rules only. -/
def enableSome (known : List String) (ledger : Ledger) (line : Nat) (names : List String) : Ledger :=
  let ledger := names.foldl (fun l name => l.closeSingle line name) ledger
  match ledger.blanket with
  | none => ledger
  | some _ => (ledger.closeBlanket line).disableEach line (known.filter (!names.contains ·))

/-- Enable rules, all of them if none is named. -/
def enable (known : List String) (ledger : Ledger) (line : Nat) : List String → Ledger
  | [] => ledger.enableAll line
  | names => enableSome known ledger line names

/-- Silence the document, which only its first line can do. -/
def disableFile (ledger : Ledger) (line : Nat) : Ledger :=
  if line = 1 then { ledger with found.fileDisabled := true } else ledger

/-- Silence one line. -/
def disableLine (ledger : Ledger) (target : Nat) (names : List String) : Ledger :=
  ledger.record [⟨scopeOf names, .line target⟩]

/-- The intervals of what is still open at the end of the document. -/
def remaining (ledger : Ledger) : List Interval :=
  (ledger.blanket.map fun first => (⟨.all, .onward first⟩ : Interval)).toList
    ++ ledger.single.map fun (name, first) => ⟨.rules [name], .onward first⟩

end Ledger

/-- The line a line directive is about: that of the comment if content ends there before it. -/
def targetLine (w : Window) : Nat :=
  match w.previousSignificant? with
  | some t =>
    if !t.kind.isPseudo && t.stop.line == w.current.start.line then w.current.start.line
    else w.current.start.line + 1
  | none => w.current.start.line + 1

/-- Let a directive take effect. -/
def obey (known : List String) (ledger : Ledger) (w : Window) (d : Directive) : Ledger :=
  let line := w.current.start.line
  match d.verb with
  | .disableFile => ledger.disableFile line
  | .disableLine => ledger.disableLine (targetLine w) d.rules
  | .disable => ledger.disable line d.rules
  | .enable => ledger.enable known line d.rules

/-- Look at one token. Only comments can hold directives. -/
def step (known : List String) (ledger : Ledger) (w : Window) : Ledger :=
  if w.current.kind = .comment then
    match Directive.parse? w.current.value with
    | some d => obey known ledger w d
    | none => ledger
  else ledger

/-- The suppressions of a document, from its tokens and the names of all rules there are. -/
def collect (known : List String) (tokens : List Token) : Suppressions :=
  let ledger := (Window.all tokens).foldl (step known) Ledger.empty
  { ledger.found with intervals := ledger.found.intervals ++ ledger.remaining }

end Suppressions

end YamlStyle
