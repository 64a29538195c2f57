import Mathlib
import YamlStyle.Proofs.Lint.Report
import YamlStyle.Proofs.Rule.Configuration

/-!
# Tokens are made only when they are needed

Making tokens is skipped for documents without the marker of directives, if no rule inspects tokens.
Nothing is missed by that (`lint_without_marker`): with tokens the report would be the same, but for
the fault that cut them short. What directives silence is in any case what they silence in the full
stream of tokens (`suppressions_stream?`).
-/

set_option autoImplicit false

namespace YamlStyle

/-- `rest` is `report` without the fault of the document, if there is one. A rule may report a problem
that looks the same, but the fault is found last of all. -/
def IsWithoutFault (error : Option SyntaxFault) (report rest : List Problem) : Prop :=
  match error with
  | none => rest = report
  | some e => ∃ front back, report = front ++ e.toProblem :: back ∧ rest = front ++ back ∧
      e.toProblem ∉ back

theorem isWithoutFault_sort (problems : List Problem) (error : Option SyntaxFault) :
    IsWithoutFault error (Problem.sort (problems ++ (error.map SyntaxFault.toProblem).toList))
      (Problem.sort problems) := by
  cases error with
  | none => simp [IsWithoutFault]
  | some e =>
    obtain ⟨front, back, hwith, hwithout, hback⟩ :=
      Problem.sortable_report.exists_mergeSort_concat problems e.toProblem
    refine ⟨front, back, hwith, hwithout, fun hmem => ?_⟩
    have hself := Problem.sortable_report.refl e.toProblem
    rw [hback _ hmem] at hself
    exact absurd hself (by simp)

namespace Linter

variable {text : Text}

/-- Whether or not tokens are made, what is silenced is what the directives among all tokens silence. -/
theorem suppressions_stream? (linter : Linter) (text : Text) :
    linter.suppressions (linter.stream? text) =
      Suppressions.collect linter.config.known
        (TokenStream.segment linter.tokenizer text).tokens := by
  rw [stream?]
  split
  · rfl
  · rename_i hskip
    have hmarker : ¬ marker <:+: text := by
      rw [← occursIn_iff]
      intro hoccurs
      exact hskip (by rw [hoccurs, Bool.or_true])
    exact (Suppressions.collect_of_no_marker hmarker linter.tokenizer linter.config.known).symm

theorem stream?_eq_none {linter : Linter} (hmarker : ¬ marker <:+: text)
    (hline : ∀ entry ∈ linter.config.rules, entry.1.granularity ≠ .token) :
    linter.stream? text = none := by
  have hneeds : linter.config.needsTokens = false := by
    refine List.any_eq_false.mpr fun entry hentry => ?_
    rw [beq_iff_eq]
    exact hline entry hentry
  rw [← occursIn_iff, Bool.not_eq_true] at hmarker
  rw [stream?, hneeds, hmarker]
  rfl

/-- Rules that inspect lines find the same with tokens, and the fault that cut these short is added. -/
theorem findings_some {linter : Linter}
    (hline : ∀ entry ∈ linter.config.rules, entry.1.granularity ≠ .token)
    (htruthful : ∀ entry ∈ linter.config.rules, entry.1.Truthful) (stream : TokenStream) :
    linter.findings text (some stream) =
      linter.findings text none ++ (stream.error.map SyntaxFault.toProblem).toList := by
  have hrules : (linter.config.rules.flatMap fun entry =>
        runRule text (some stream) entry.1 entry.2) =
      linter.config.rules.flatMap fun entry => runRule text none entry.1 entry.2 :=
    List.flatMap_congr fun entry hentry => (htruthful entry hentry).runRule_congr
      (fun htoken => absurd htoken (hline entry hentry)) text entry.2
  rw [findings, findings, hrules]
  simp

/-- **Documents without the marker need no tokens**, unless a rule inspects them. -/
theorem lint_without_marker (hmarker : ¬ marker <:+: text) :
    (∀ tokenizer known,
      Suppressions.collect known (TokenStream.segment tokenizer text).tokens =
        Suppressions.nothing) ∧
    ∀ linter : Linter, (∀ entry ∈ linter.config.rules, entry.1.granularity ≠ .token) →
      (∀ entry ∈ linter.config.rules, entry.1.Truthful) →
      linter.stream? text = none ∧
        IsWithoutFault (TokenStream.segment linter.tokenizer text).error
          (linter.report text (some (TokenStream.segment linter.tokenizer text)))
          (linter.lint text) := by
  have hnothing := Suppressions.collect_of_no_marker hmarker
  refine ⟨hnothing, fun linter hline htruthful => ?_⟩
  have hnone := stream?_eq_none hmarker hline
  have hsilenced : linter.suppressions (some (TokenStream.segment linter.tokenizer text)) =
      Suppressions.nothing := hnothing linter.tokenizer linter.config.known
  refine ⟨hnone, ?_⟩
  rw [lint, hnone, report_eq, report_eq, hsilenced, ← findings_eq_found, ← findings_eq_found,
    findings_some hline htruthful, suppressions, audible_nothing, audible_nothing]
  exact isWithoutFault_sort _ _

/-- A document with a blank at the end of a line and a collection that is left open. -/
def unclosed : Text := "a: [1, 2 \n".toList

theorem lint_without_marker_unclosed :
    ¬ marker <:+: unclosed ∧ standard.stream? unclosed = none ∧
      (TokenStream.segment yamlScanner unclosed).error = some ⟨⟨1, 4⟩, .unclosed .square⟩ ∧
      IsWithoutFault (some ⟨⟨1, 4⟩, .unclosed .square⟩)
        (standard.report unclosed (some (TokenStream.segment yamlScanner unclosed)))
        (standard.lint unclosed) := by
  have hmarker : ¬ marker <:+: unclosed := by
    rw [← occursIn_iff]
    decide
  have herror : (TokenStream.segment yamlScanner unclosed).error =
      some ⟨⟨1, 4⟩, .unclosed .square⟩ := by cbv
  have hline : ∀ entry ∈ standard.config.rules, entry.1.granularity ≠ .token := by decide
  have htruthful : ∀ entry ∈ standard.config.rules, entry.1.Truthful := fun entry hentry =>
    wellFormed_standardCatalog.truthful entry.1 (Resolved.Over.byDefault.mem_catalog hentry)
  obtain ⟨hnone, hwithout⟩ := (lint_without_marker hmarker).2 standard hline htruthful
  exact ⟨hmarker, hnone, herror, herror ▸ hwithout⟩

end Linter

end YamlStyle
