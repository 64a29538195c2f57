import YamlStyle.Proofs.Line.EndsLine

/-!
# One line at a time

A text that is not empty is the content of its first line, an ending, and the text below. `lines` is
defined by that division, and so is everything else that walks over lines; `line_induction` is the
induction that goes with it.
-/

set_option autoImplicit false

namespace YamlStyle

/-- The text below the first line. -/
def lineBelow (text : Text) : Text := (Ending.split (lineRest text)).2

/-- How the first line of a text ends. -/
def lineEnding (text : Text) : Ending := (Ending.split (lineRest text)).1

theorem lineEnding_append_lineBelow (text : Text) :
    (lineEnding text).text ++ lineBelow text = lineRest text :=
  Ending.text_append_split _

theorem line_append (text : Text) :
    lineContent text ++ ((lineEnding text).text ++ lineBelow text) = text := by
  rw [lineEnding_append_lineBelow, lineContent_append_lineRest]

/-- A line without an ending is the last one. -/
theorem lineBelow_of_no_ending {text : Text} (h : lineEnding text = .none) : lineBelow text = [] := by
  -- Behind the content the text is over or goes on with a break, and a break is an ending.
  have hhead := List.head?_dropWhile_not (fun c => !isBreak c) text
  rw [← lineRest] at hhead
  rw [lineEnding] at h
  rw [lineBelow]
  generalize lineRest text = rest at h hhead
  cases rest with
  | nil => rfl
  | cons c cs =>
    have hc : isBreak c = true := by simpa using hhead
    simp only [isBreak, Bool.or_eq_true, beq_iff_eq] at hc
    rcases hc with rfl | rfl
    · exact absurd h (by simp [Ending.split])
    · by_cases hlf : cs.head? = some '\n'
      · obtain ⟨tail, rfl⟩ := List.head?_eq_some_iff.mp hlf
        exact absurd h (by simp [Ending.split])
      · rw [Ending.split_cr hlf] at h
        exact absurd h (by simp)

theorem length_lineBelow_lt {text : Text} (h : text ≠ []) :
    (lineBelow text).length < text.length := by
  cases text with
  | nil => exact absurd rfl h
  | cons c cs => exact length_split_lineRest_lt c cs

theorem linesFrom_of_ne_nil (number start : Nat) (before : Text) {text : Text} (h : text ≠ []) :
    linesFrom number start before text =
      ⟨number, start, lineContent text, lineEnding text, before, lineBelow text⟩ ::
        linesFrom (number + 1)
          (start + width (lineContent text) + width (lineEnding text).text)
          ((lineEnding text).text.reverse ++ ((lineContent text).reverse ++ before))
          (lineBelow text) := by
  cases text with
  | nil => exact absurd rfl h
  | cons c cs =>
    rw [linesFrom]
    rfl

/-- To show something of every text, show it of the empty text, and of any other text if it holds
below the first line. -/
theorem line_induction {P : Text → Prop} (nil : P [])
    (line : ∀ text, text ≠ [] → P (lineBelow text) → P text) (text : Text) : P text := by
  by_cases h : text = []
  · rw [h]
    exact nil
  · exact line text h (line_induction nil line (lineBelow text))
termination_by text.length
decreasing_by exact length_lineBelow_lt h

/-- Lines are numbered, and the lines below a line are those of the text below it. -/
theorem linesFrom_below {before text : Text} {number start : Nat} {above below : List Line}
    {l : Line} (h : linesFrom number start before text = above ++ l :: below) :
    l.number = number + above.length ∧
      ∃ before', below = linesFrom (l.number + 1) l.nextStart before' l.after := by
  induction text using line_induction generalizing number start before above with
  | nil =>
    rw [linesFrom] at h
    exact absurd h.symm (by simp)
  | line text hne ih =>
    rw [linesFrom_of_ne_nil _ _ _ hne] at h
    cases above with
    | nil =>
      obtain ⟨rfl, rfl⟩ := List.cons.inj h
      exact ⟨rfl, _, rfl⟩
    | cons first above =>
      obtain ⟨-, hrest⟩ := List.cons.inj h
      obtain ⟨hnumber, hbelow⟩ := ih hrest
      refine ⟨?_, hbelow⟩
      rw [hnumber, List.length_cons]
      omega

namespace EndsLine

variable {text : Text}

theorem below (h : EndsLine text) (hne : lineBelow text ≠ []) : EndsLine (lineBelow text) := by
  rw [← line_append text, ← List.append_assoc] at h
  exact EndsLine.of_append _ h hne

theorem split_lineRest_append (h : EndsLine text) (hne : lineBelow text ≠ [])
    (back : Text) : Ending.split (lineRest (text ++ back)) =
      (lineEnding text, lineBelow text ++ back) := by
  rw [h.lineRest_append]
  exact Ending.split_append hne back

theorem lineEnding_append (h : EndsLine text) (hne : lineBelow text ≠ []) (back : Text) :
    lineEnding (text ++ back) = lineEnding text := by
  rw [lineEnding, h.split_lineRest_append hne]

theorem lineBelow_append (h : EndsLine text) (hne : lineBelow text ≠ []) (back : Text) :
    lineBelow (text ++ back) = lineBelow text ++ back := by
  rw [lineBelow, h.split_lineRest_append hne]

end EndsLine

end YamlStyle
