import YamlStyle.Problem
import YamlStyle.Proofs.Sort.Stable
import YamlStyle.Proofs.Text.ByteOrder

/-!
# The order of problems

Problems are reported by line, then by column, then by the bytes of the name of the rule. A problem of
a whole line has column 0 and so comes before the others of its line. Two problems tie only if all
three agree.
-/

set_option autoImplicit false

namespace YamlStyle

namespace Problem

/-- By line, then by column, then by the bytes of the rule. -/
def NoLater (p q : Problem) : Prop :=
  p.line < q.line ∨ p.line = q.line ∧
    (p.column < q.column ∨ p.column = q.column ∧ bytes p.rule.toList ≤ bytes q.rule.toList)

/-- Whether a problem of a rule stands at a place. -/
def isAt (line column : Nat) (rule : String) (p : Problem) : Bool :=
  p.line == line && p.column == column && p.rule == rule

theorem reportLE_iff_lex {p q : Problem} :
    reportLE p q = true ↔ p.line < q.line ∨ p.line = q.line ∧
      (p.column < q.column ∨ p.column = q.column ∧ p.rule ≤ q.rule) := by
  unfold reportLE
  split_ifs with hline hcolumn
  · rw [decide_eq_true_eq]
    exact ⟨Or.inl, fun h => h.resolve_right fun heq => hline heq.1⟩
  · rw [decide_eq_true_eq]
    have hline := not_not.mp hline
    refine ⟨fun h => Or.inr ⟨hline, Or.inl h⟩, fun h => ?_⟩
    rcases h with h | ⟨-, h | ⟨h, -⟩⟩
    · omega
    · exact h
    · exact absurd h hcolumn
  · rw [decide_eq_true_eq]
    have hline := not_not.mp hline
    have hcolumn := not_not.mp hcolumn
    refine ⟨fun h => Or.inr ⟨hline, Or.inr ⟨hcolumn, h⟩⟩, fun h => ?_⟩
    rcases h with h | ⟨-, h | ⟨-, h⟩⟩
    · omega
    · omega
    · exact h

theorem sortable_report : Sortable reportLE where
  trans p q r hpq hqr := by
    rw [reportLE_iff_lex] at hpq hqr ⊢
    rcases hpq with hpq | ⟨hpq, hpq' | ⟨hpq', hpq''⟩⟩
    · exact Or.inl (by omega)
    · rcases hqr with hqr | ⟨hqr, hqr'⟩
      · exact Or.inl (by omega)
      · exact Or.inr ⟨by omega, Or.inl (by omega)⟩
    · rcases hqr with hqr | ⟨hqr, hqr' | ⟨hqr', hqr''⟩⟩
      · exact Or.inl (by omega)
      · exact Or.inr ⟨by omega, Or.inl (by omega)⟩
      · exact Or.inr ⟨by omega, Or.inr ⟨by omega, le_trans hpq'' hqr''⟩⟩
  total p q := by
    rw [Bool.or_eq_true, reportLE_iff_lex, reportLE_iff_lex]
    rcases Nat.lt_trichotomy p.line q.line with h | hline | h
    · exact Or.inl (Or.inl h)
    · rcases Nat.lt_trichotomy p.column q.column with h | hcolumn | h
      · exact Or.inl (Or.inr ⟨hline, Or.inl h⟩)
      · rcases le_total p.rule q.rule with h | h
        · exact Or.inl (Or.inr ⟨hline, Or.inr ⟨hcolumn, h⟩⟩)
        · exact Or.inr (Or.inr ⟨hline.symm, Or.inr ⟨hcolumn.symm, h⟩⟩)
      · exact Or.inr (Or.inr ⟨hline.symm, Or.inl h⟩)
    · exact Or.inr (Or.inl h)

theorem filter_sort (keep : Problem → Bool) (problems : List Problem) :
    (sort problems).filter keep = sort (problems.filter keep) :=
  sortable_report.filter_mergeSort keep problems

end Problem

end YamlStyle
