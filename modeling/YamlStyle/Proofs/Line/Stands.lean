import YamlStyle.Proofs.Line.Below
import YamlStyle.Proofs.Text.Boundary

/-!
# Where a line stands

A line carries its surroundings with it. Put together, what is above the line, its content, its ending
and what is below are the document, and the offsets of the line are widths of what stands in front.
Whatever holds of a line because of where it is, is read off this equation.
-/

set_option autoImplicit false

namespace YamlStyle

/-- A line and its surroundings are the text. -/
structure Line.Stands (l : Line) (text : Text) : Prop where
  text : text = l.before.reverse ++ (l.content ++ (l.ending.text ++ l.after))
  start : l.start = width l.before.reverse
  content : ∀ c ∈ l.content, isBreak c = false

theorem stands_of_mem_linesFrom {text before : Text} {number start : Nat} {l : Line}
    (hstart : start = width before.reverse) (h : l ∈ linesFrom number start before text) :
    l.Stands (before.reverse ++ text) := by
  induction text using line_induction generalizing number start before with
  | nil => simp [linesFrom] at h
  | line text hne ih =>
    rw [linesFrom_of_ne_nil _ _ _ hne] at h
    rcases List.mem_cons.mp h with rfl | h
    · exact ⟨by rw [line_append], hstart, fun c hc => isBreak_of_mem_lineContent hc⟩
    · have hstands := ih (by simp [hstart, Nat.add_assoc]) h
      simpa only [List.reverse_append, List.reverse_reverse, List.append_assoc, line_append]
        using hstands

theorem stands_of_mem_lines {text : Text} {l : Line} (h : l ∈ lines text) : l.Stands text := by
  have hmem : l ∈ linesFrom 1 0 [] text := h
  refine stands_of_mem_linesFrom ?_ hmem
  rfl

namespace Line.Stands

variable {l : Line} {text : Text}

theorem stop_eq (h : l.Stands text) : l.stop = width (l.before.reverse ++ l.content) := by
  rw [width_append, ← h.start]
  rfl

theorem nextStart_eq (h : l.Stands text) :
    l.nextStart = width (l.before.reverse ++ l.content ++ l.ending.text) := by
  rw [width_append, ← h.stop_eq]
  rfl

theorem boundaries (h : l.Stands text) : isBoundary text l.start = true ∧
    isBoundary text l.stop = true ∧ isBoundary text l.nextStart = true := by
  refine ⟨isBoundary_iff.mpr ⟨_, _, h.text, h.start⟩, isBoundary_iff.mpr ⟨_, l.ending.text ++ l.after,
    ?_, h.stop_eq⟩, isBoundary_iff.mpr ⟨_, l.after, ?_, h.nextStart_eq⟩⟩
  · rw [List.append_assoc]
    exact h.text
  · rw [List.append_assoc, List.append_assoc]
    exact h.text

end Line.Stands

end YamlStyle
