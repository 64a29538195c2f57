import YamlStyle.Proofs.Line.Position
import YamlStyle.Proofs.LineEnding.Crlf

/-!
# Lines and positions under CR LF

A text and the text under CR LF have the same lines: the same numbers and the same contents, other
endings and other surroundings (`lines_crlf`). So they have the same positions, too. A boundary and
its counterpart stand on the same line, and in front of them on that line stand the same characters
(`locate_crlf`).

Positions are found by walking over the starts of lines, and the proof walks along, one line of the
text at a time.
-/

set_option autoImplicit false

namespace YamlStyle

/-! ## Lines -/

/-- A line as it is under CR LF. -/
def Line.toCrlf (l : Line) : Line where
  number := l.number
  start := width (crlf l.before.reverse)
  content := l.content
  ending := l.ending.toCrlf
  before := (crlf l.before.reverse).reverse
  after := crlf l.after

theorem Line.isTerminated_toCrlf (l : Line) : l.toCrlf.isTerminated = l.isTerminated := by
  obtain ⟨number, start, content, ending, before, after⟩ := l
  cases ending <;> rfl

theorem linesFrom_crlf {text : Text} (h : Unix text) (number start : Nat) (before : Text) :
    linesFrom number (width (crlf before.reverse)) (crlf before.reverse).reverse (crlf text) =
      (linesFrom number start before text).map Line.toCrlf := by
  induction text using line_induction generalizing number start before with
  | nil => simp [linesFrom]
  | line text hne ih =>
    have hbelow := ih h.nextLines (number + 1)
      (start + width (lineContent text) + width (lineEnding text).text)
      ((lineEnding text).text.reverse ++ ((lineContent text).reverse ++ before))
    rw [linesFrom_of_ne_nil _ _ _ hne, linesFrom_of_ne_nil _ _ _ (crlf_ne_nil hne), List.map_cons,
      h.lineContent_crlf, h.lineEnding_crlf, h.lineBelow_crlf, h.text_toCrlf, ← hbelow]
    simp [crlf_lineContent, Line.toCrlf, Nat.add_assoc]

theorem lines_crlf {text : Text} (h : Unix text) : lines (crlf text) = (lines text).map Line.toCrlf :=
  linesFrom_crlf h 1 0 []

namespace Line.Stands

variable {l : Line} {text : Text}

theorem ending_cases (h : l.Stands text) (hunix : Unix text) : l.ending = .none ∨ l.ending = .lf := by
  have hcr : '\r' ∉ l.ending.text :=
    unix_iff.mp (h.text ▸ hunix).of_append.2.of_append.2.of_append.1
  generalize l.ending = e at hcr
  cases e with
  | none => exact Or.inl rfl
  | lf => exact Or.inr rfl
  | crlf => exact absurd hcr (by decide)
  | cr => exact absurd hcr (by decide)

theorem text_toCrlf (h : l.Stands text) (hunix : Unix text) :
    l.ending.toCrlf.text = crlf l.ending.text := by
  rcases h.ending_cases hunix with hnone | hlf
  · rw [hnone]
    rfl
  · rw [hlf]
    rfl

theorem unix_after (h : l.Stands text) (hunix : Unix text) : Unix l.after :=
  (h.text ▸ hunix).of_append.2.of_append.2.of_append.2

theorem unix_before (h : l.Stands text) (hunix : Unix text) : Unix l.before := by
  have hreverse := unix_iff.mp (h.text ▸ hunix).of_append.1
  exact unix_iff.mpr fun hmem => hreverse (List.mem_reverse.mpr hmem)

/-- The offsets of a line under CR LF are the counterparts of its offsets. -/
theorem crlfOffset_stop (h : l.Stands text) : crlfOffset text l.stop = l.toCrlf.stop := by
  rw [h.stop_eq, h.text, ← List.append_assoc, crlfOffset_width, crlf_append,
    crlf_of_no_break h.content, width_append]
  rfl

theorem crlfOffset_nextStart (h : l.Stands text) (hunix : Unix text) :
    crlfOffset text l.nextStart = l.toCrlf.nextStart := by
  have hending := h.text_toCrlf hunix
  rw [h.nextStart_eq, h.text, ← List.append_assoc, ← List.append_assoc, crlfOffset_width, crlf_append,
    crlf_append, crlf_of_no_break h.content, width_append, width_append, ← hending]
  rfl

end Line.Stands

/-! ## Positions -/

/-- The same under CR LF, where the ending is longer. -/
theorem startsOf_linesFrom_crlf (number start : Nat) (before : Text) {text : Text} (hunix : Unix text)
    (h : lineEnding text = .lf) :
    startsOf (linesFrom number start before (crlf text)) =
      ⟨start + width (lineContent text) + width Ending.crlf.text, crlf (lineBelow text)⟩ ::
        startsOf (linesFrom (number + 1)
          (start + width (lineContent text) + width Ending.crlf.text)
          (Ending.crlf.text.reverse ++ ((lineContent text).reverse ++ before))
          (crlf (lineBelow text))) := by
  have hending : lineEnding (crlf text) = .crlf := by
    rw [hunix.lineEnding_crlf, h]
    rfl
  have hstarts := startsOf_linesFrom number start before (by rw [hending]; simp)
  rwa [hending, hunix.lineContent_crlf, hunix.lineBelow_crlf] at hstarts

namespace Index

/-- A place in a text whose first line ends in LF is on that line, or below it. -/
theorem first_line_cases {content below front back : Text}
    (h : content ++ '\n' :: below = front ++ back) :
    (∃ m, content = front ++ m) ∨ ∃ front', front = content ++ '\n' :: front' ∧
      below = front' ++ back := by
  rcases List.append_eq_append_iff.mp h with ⟨m, rfl, hm⟩ | ⟨m, rfl, -⟩
  · cases m with
    | nil => exact Or.inl ⟨[], by simp⟩
    | cons d m =>
      obtain ⟨rfl, rfl⟩ := List.cons.inj hm
      exact Or.inr ⟨m, rfl, rfl⟩
  · exact Or.inl ⟨m, rfl⟩

/-- On the first line, what stands in front of a place is what it is on either side. -/
theorem distance_crlf {front : Text} (hfront : ∀ c ∈ front, isBreak c = false) (base base' : Nat)
    (back : Text) :
    distance ⟨base', crlf (front ++ back)⟩ (base' + width (crlf front)) =
      distance ⟨base, front ++ back⟩ (base + width front) := by
  rw [crlf_append, distance_width, distance_width, crlf_of_no_break hfront]

/-- Walking over the line starts of a text, and of the text under CR LF, leads to the same place. -/
theorem seek_crlf {text front back : Text} (hunix : Unix text) (htext : text = front ++ back)
    (line number number' base base' : Nat) (before before' : Text) :
    seek (base' + width (crlf front)) line ⟨base', crlf text⟩
        (startsOf (linesFrom number' base' before' (crlf text))) =
      seek (base + width front) line ⟨base, text⟩ (startsOf (linesFrom number base before text)) := by
  induction text using line_induction
    generalizing front line number number' base base' before before' with
  | nil =>
    obtain ⟨rfl, rfl⟩ := List.append_eq_nil_iff.mp htext.symm
    simp [linesFrom, startsOf, seek, distance, splitAt?]
  | line text hne ih =>
    have hlines := line_append text
    rcases hunix.lineEnding_cases with ⟨hnone, hbelow⟩ | hlf
    · -- The last line: there is no start behind it to walk to.
      have hwhole : lineContent text = front ++ back := by
        simpa [hnone, hbelow, Ending.text, ← htext] using hlines
      have hfront : ∀ c ∈ front, isBreak c = false := fun c hc =>
        isBreak_of_mem_lineContent (hwhole ▸ List.mem_append_left back hc)
      have hending : lineEnding (crlf text) = .none := by
        rw [hunix.lineEnding_crlf, hnone]
        rfl
      rw [startsOf_linesFrom_last _ _ _ hnone, startsOf_linesFrom_last _ _ _ hending, seek, seek,
        htext, distance_crlf hfront base base' back]
    · have hstarts := startsOf_linesFrom number base before (by rw [hlf]; simp)
      rw [hlf] at hlines hstarts
      rw [hstarts, startsOf_linesFrom_crlf number' base' before' hunix hlf]
      rcases first_line_cases (hlines.trans htext) with ⟨m, hm⟩ | ⟨front', hfront', hbelow⟩
      · -- The place is on the first line, and the next one starts behind it.
        have hfront : ∀ c ∈ front, isBreak c = false := fun c hc =>
          isBreak_of_mem_lineContent (hm ▸ List.mem_append_left m hc)
        have hwidth := congrArg width hm
        rw [width_append] at hwidth
        rw [seek_cons_of_lt, seek_cons_of_lt, htext, distance_crlf hfront base base' back]
        · show base + width front < base + width (lineContent text) + 1
          omega
        · show base' + width (crlf front) < base' + width (lineContent text) + 2
          rw [crlf_of_no_break hfront]
          omega
      · -- The place is below the first line, so that the walk goes on there.
        have hwidth : width front =
            width (lineContent text) + width Ending.lf.text + width front' := by
          rw [hfront', width_append, Nat.add_assoc]
          rfl
        have hwidth' : width (crlf front) =
            width (lineContent text) + width Ending.crlf.text + width (crlf front') := by
          rw [hfront', crlf_append, crlf_lineContent, width_append, Nat.add_assoc,
            ← width_append Ending.crlf.text]
          rfl
        rw [seek_cons_of_le, seek_cons_of_le, hwidth, hwidth', ← Nat.add_assoc, ← Nat.add_assoc,
          ← Nat.add_assoc, ← Nat.add_assoc]
        · exact ih hunix.nextLines hbelow ..
        · show base + width (lineContent text) + width Ending.lf.text ≤ base + width front
          omega
        · show base' + width (lineContent text) + width Ending.crlf.text ≤ base' + width (crlf front)
          omega

/-- **A boundary and its counterpart have the same position.** -/
theorem locate_crlf {text front back : Text} (hunix : Unix text) (htext : text = front ++ back) :
    (ofText (crlf text)).locate (width (crlf front)) = (ofText text).locate (width front) := by
  have hle : width front ≤ width text := by
    rw [htext, width_append]
    exact Nat.le_add_right _ _
  have hle' : width (crlf front) ≤ width (crlf text) := by
    rw [htext, crlf_append, width_append]
    exact Nat.le_add_right _ _
  have hseek := seek_crlf hunix htext 1 1 1 0 0 [] []
  rw [Nat.zero_add, Nat.zero_add] at hseek
  rw [locate, locate]
  show seek (min _ (width (crlf text))) 1 _ _ = seek (min _ (width text)) 1 _ _
  rw [Nat.min_eq_left hle, Nat.min_eq_left hle']
  exact hseek

end Index

end YamlStyle
