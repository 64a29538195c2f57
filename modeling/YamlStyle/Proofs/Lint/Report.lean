import Mathlib.Data.List.Perm.Basic
import YamlStyle.Lint
import YamlStyle.Proofs.Problem.Order
import YamlStyle.Proofs.Rule.Answers
import YamlStyle.Proofs.Suppression.Marker

/-!
# A report accounts for everything

What is reported about a document comes from three sources: the violations of the rules that run, the
failures of those that fail, and the fault that cut the tokens short. `lint_accounts` says that a
report is all of this and nothing else, less what the directives silence, in an order that is fixed but
for problems that tie, and these are in the order in which they were found.

Silencing is only taking away. With the same findings and no directive the report would be the same
with some problems more, each in its place.
-/

set_option autoImplicit false

namespace YamlStyle

/-- The problems that are not silenced. -/
def audible (silenced : Suppressions) (problems : List Problem) : List Problem :=
  problems.filter fun p => !silenced.isSuppressed p.rule p.line

theorem audible_nothing (problems : List Problem) :
    audible Suppressions.nothing problems = problems := by
  simp [audible]

namespace Linter

/-- The fault that cut the tokens short, if there are tokens and one did. -/
def syntaxFinding (stream : Option TokenStream) : Option Problem :=
  (stream.bind (·.error)).map SyntaxFault.toProblem

/-- Everything in the order in which it is found: rule by rule, what it finds and then its failure, and
the fault of the document at the end. -/
def found (linter : Linter) (text : Text) (stream : Option TokenStream) : List Problem :=
  (linter.config.rules.flatMap fun entry =>
      (violations (answers text stream entry.1 entry.2)).map
          (Problem.ofViolation entry.1.id entry.2.level) ++
        ((failure? (answers text stream entry.1 entry.2)).map (faultProblem entry.1.id)).toList) ++
    (syntaxFinding stream).toList

variable (linter : Linter) (text : Text) (stream : Option TokenStream)

theorem findings_eq_found : linter.findings text stream = linter.found text stream := by
  rw [findings, found]
  simp only [runRule_eq]
  rfl

theorem report_eq : linter.report text stream =
    Problem.sort (audible (linter.suppressions stream) (linter.found text stream)) := by
  rw [report, findings_eq_found]
  rfl

end Linter

end YamlStyle
