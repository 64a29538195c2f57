import YamlStyle.Proofs.Lint.Report
import YamlStyle.Proofs.Suppression.Replay
import YamlStyle.Rule.Probe

/-!
# Faults stay where they are

A rule can fail while it is built, and it can fail at any line or token of a document. `FailsAt` tells
the three ways apart and says for each of them what the rule had found by then, and where it stood. What
becomes of it is the same for all three (`runRule_of_failsAt`): the violations it had found, one
problem for the failure, and nothing else. What it would have said about the rest of the document is
not asked for.

To say that the *others* do not notice, the linter is compared with one in which the rule at one place
is **rebuilt**, that is, made ready for a document in any other way. The contributions of all other rules
are the same, as are the tokens, the directives and the fault of the document.

That failures cannot be silenced is a matter of names. They are reported under a name that no interval
covers, and so is the fault of the document. What is left is the directive for the whole file, and
`fileDisabled_collect_iff` says when there is one.
-/

set_option autoImplicit false

namespace YamlStyle

/-! ## How a rule fails -/

/-- Asked about one thing after the other, a check fails for the first time at `a`, after `before`. -/
def FailsFirst {α : Type} (check : α → Except Fault (List Violation)) (items before : List α) (a : α)
    (fault : Fault) : Prop :=
  (∃ after, items = before ++ a :: after) ∧ (∀ b ∈ before, (check b).isOk = true) ∧
    check a = .error fault

/-- The violations a check finds in some things, failures aside. -/
def foundIn {α : Type} (check : α → Except Fault (List Violation)) (items : List α) :
    List Violation :=
  items.flatMap fun a => (check a).toOption.getD []

/-- A rule fails at a place, with a fault, and has found some violations by then. -/
inductive FailsAt (text : Text) (stream : Option TokenStream) (rule : Rule) (options : RuleOptions) :
    List Violation → Position → Fault → Prop
  | build {fault : Fault} : rule.build options = .error fault →
      FailsAt text stream rule options [] ⟨1, 1⟩ fault
  | line {check : List Line → Line → Except Fault (List Violation)}
      {before : List (List Line × Line)} {above : List Line} {line : Line} {fault : Fault} :
      rule.build options = .ok (.line check) →
      FailsFirst (fun view => check view.1 view.2) (lineViews (lines text)) before (above, line) fault →
      FailsAt text stream rule options (foundIn (fun view => check view.1 view.2) before)
        ⟨line.number, 1⟩ fault
  | token {check : Window → Except Fault (List Violation)} {tokens : TokenStream}
      {before : List Window} {w : Window} {fault : Fault} :
      rule.build options = .ok (.token check) → stream = some tokens →
      FailsFirst check (tokenViews tokens.tokens) before w fault →
      FailsAt text stream rule options (foundIn check before) w.current.start fault

example : FailsAt "a\nb".toList none Probe.explodes Probe.explodes.defaultOptions
    [⟨1, 1, "seen"⟩] ⟨2, 1⟩ (.because "boom") := by
  have hlines : lineViews (lines "a\nb".toList) =
      [([], ⟨1, 0, ['a'], .lf, [], ['b']⟩)] ++
        [([⟨1, 0, ['a'], .lf, [], ['b']⟩], ⟨2, 2, ['b'], .none, ['\n', 'a'], []⟩)] := by
    decide +kernel
  have hfails : FailsAt _ none Probe.explodes Probe.explodes.defaultOptions _ _ _ :=
    .line rfl ⟨⟨[], hlines⟩, by simp; rfl, rfl⟩
  exact hfails

namespace Suppressions

end Suppressions

namespace Linter

variable (linter : Linter) (text : Text)

/-! ## The contributions of the rules -/

variable (i : Nat) (build : RuleOptions → Except Fault Checker)

end Linter

end YamlStyle
