import YamlStyle.Line.Index
import YamlStyle.Proofs.Line.Stands

/-!
# Positions follow offsets

`Index.locate` turns offsets into positions by walking over the starts of lines. Offsets count bytes
and columns count characters, yet boundaries further on in a document never have earlier positions
(`locate_noLater`). Only boundaries: inside a character a column counts bytes, and so it may be beyond
the column of the character that follows.

The walk is the same for two offsets as long as both are behind the next line start. Where they part,
the further one is on a later line, and where they stop together, they are measured from one start.
-/

set_option autoImplicit false

namespace YamlStyle

/-- On an earlier line, or on the same line and no further to the right. -/
def Position.NoLater (p q : Position) : Prop :=
  p.line < q.line ∨ p.line = q.line ∧ p.column ≤ q.column

/-- What is kept of a line start is the document from there on. -/
def LineStart.Stands (start : LineStart) (text : Text) : Prop :=
  ∃ before, text = before ++ start.tail ∧ start.offset = width before

variable {text : Text}

theorem width_ending_pos {l : Line} (h : l.isTerminated = true) : 0 < width l.ending.text := by
  obtain ⟨number, start, content, ending, before, after⟩ := l
  cases ending with
  | none => exact absurd h (by simp [Line.isTerminated])
  | lf | crlf | cr => exact width_pos (by simp [Ending.text])

/-- The line starts of a document stand in it, and none but the first is at its beginning. -/
theorem stands_of_mem_lineStarts {start : LineStart} (h : start ∈ lineStarts text) :
    start.Stands text ∧ 0 < start.offset := by
  obtain ⟨l, hl, rfl⟩ := List.mem_map.mp h
  obtain ⟨hmem, hterminated⟩ := List.mem_filter.mp hl
  have hstands := stands_of_mem_lines hmem
  refine ⟨⟨l.before.reverse ++ l.content ++ l.ending.text, ?_, hstands.nextStart_eq⟩, ?_⟩
  · rw [List.append_assoc, List.append_assoc]
    exact hstands.text
  · have hpos := width_ending_pos hterminated
    show 0 < l.stop + width l.ending.text
    omega

/-- Line starts as the lines of a text give them, wherever the text stands. -/
def startsOf (lines : List Line) : List LineStart :=
  (lines.filter Line.isTerminated).map fun l => ⟨l.nextStart, l.after⟩

/-- The line below the first one starts behind its ending. -/
theorem startsOf_linesFrom (number start : Nat) (before : Text) {text : Text}
    (h : lineEnding text ≠ .none) :
    startsOf (linesFrom number start before text) =
      ⟨start + width (lineContent text) + width (lineEnding text).text, lineBelow text⟩ ::
        startsOf (linesFrom (number + 1)
          (start + width (lineContent text) + width (lineEnding text).text)
          ((lineEnding text).text.reverse ++ ((lineContent text).reverse ++ before))
          (lineBelow text)) := by
  have hne : text ≠ [] := by
    rintro rfl
    exact h rfl
  rw [linesFrom_of_ne_nil _ _ _ hne, startsOf, List.filter_cons,
    if_pos (by simpa [Line.isTerminated])]
  rfl

theorem startsOf_linesFrom_last (number start : Nat) (before : Text) {text : Text}
    (h : lineEnding text = .none) : startsOf (linesFrom number start before text) = [] := by
  by_cases hne : text = []
  · rw [hne, linesFrom]
    rfl
  · rw [linesFrom_of_ne_nil _ _ _ hne, h, lineBelow_of_no_ending h, linesFrom]
    rfl

namespace Index

theorem distance_width (base : Nat) (front back : Text) :
    distance ⟨base, front ++ back⟩ (base + width front) = front.length := by
  rw [distance, Nat.add_sub_cancel_left, splitAt?_width]

theorem seek_cons_of_lt {offset number : Nat} {start next : LineStart} {later : List LineStart}
    (h : offset < next.offset) :
    seek offset number start (next :: later) = ⟨number, distance start offset + 1⟩ := by
  rw [seek, if_neg (Nat.not_le_of_lt h)]

theorem seek_cons_of_le {offset number : Nat} {start next : LineStart} {later : List LineStart}
    (h : next.offset ≤ offset) :
    seek offset number start (next :: later) = seek offset (number + 1) next later := by
  rw [seek, if_pos h]

/-- Measured from one line start, a boundary is as far behind another as there are characters between
them. -/
theorem distance_add {start : LineStart} (hstart : start.Stands text) {a b : Nat}
    (ha : isBoundary text a = true) (hb : isBoundary text b = true) (hle : start.offset ≤ a)
    (hab : a ≤ b) :
    ∃ more, b = a + width more ∧ distance start b = distance start a + more.length := by
  obtain ⟨offset, tail⟩ := start
  obtain ⟨before, htext, hoffset⟩ := hstart
  obtain rfl : offset = width before := hoffset
  obtain ⟨front, back, hfront, rfl⟩ := isBoundary_iff.mp ha
  obtain ⟨front', back', hfront', rfl⟩ := isBoundary_iff.mp hb
  obtain ⟨inner, rfl, htail⟩ := exists_append_of_width_le (htext.symm.trans hfront) hle
  obtain ⟨more, rfl, rfl⟩ := exists_append_of_width_le (hfront.symm.trans hfront') hab
  obtain rfl : tail = inner ++ (more ++ back') := htail
  have hnear := distance_width (width before) inner (more ++ back')
  have hfar := distance_width (width before) (inner ++ more) back'
  rw [List.append_assoc] at hfar
  refine ⟨more, width_append _ _, ?_⟩
  rw [List.append_assoc, width_append before, hfar, width_append before, hnear, List.length_append]

theorem le_line_seek (offset number : Nat) (start : LineStart) (later : List LineStart) :
    number ≤ (seek offset number start later).line := by
  induction later generalizing number start with
  | nil => exact Nat.le_refl _
  | cons next later ih =>
    rw [seek]
    split
    · exact Nat.le_of_succ_le (ih (number + 1) next)
    · exact Nat.le_refl _

/-- Two walks over the same line starts, the second to an offset further on: they part and the second
ends on a later line, or they end at the same line start. -/
theorem seek_together {a b : Nat} (hab : a ≤ b) (number : Nat) {start : LineStart}
    {later : List LineStart} (hstart : start.offset ≤ a) :
    (seek a number start later).line < (seek b number start later).line ∨
      ∃ s ∈ start :: later, s.offset ≤ a ∧ ∃ n, seek a number start later = ⟨n, distance s a + 1⟩ ∧
        seek b number start later = ⟨n, distance s b + 1⟩ := by
  induction later generalizing number start with
  | nil => exact Or.inr ⟨start, List.mem_cons_self, hstart, number, rfl, rfl⟩
  | cons next later ih =>
    by_cases hnext : next.offset ≤ a
    · rw [seek_cons_of_le hnext, seek_cons_of_le (Nat.le_trans hnext hab)]
      rcases ih (number + 1) hnext with hline | ⟨s, hs, hsame⟩
      · exact Or.inl hline
      · exact Or.inr ⟨s, List.mem_cons_of_mem start hs, hsame⟩
    · rw [seek_cons_of_lt (Nat.lt_of_not_le hnext)]
      by_cases hpart : next.offset ≤ b
      · rw [seek_cons_of_le hpart]
        exact Or.inl (le_line_seek b (number + 1) next later)
      · rw [seek_cons_of_lt (Nat.lt_of_not_le hpart)]
        exact Or.inr ⟨start, List.mem_cons_self, hstart, number, rfl, rfl⟩

theorem stands_of_mem_starts {s : LineStart} (h : s ∈ ⟨0, text⟩ :: lineStarts text) :
    s.Stands text := by
  rcases List.mem_cons.mp h with rfl | h
  · exact ⟨[], rfl, rfl⟩
  · exact (stands_of_mem_lineStarts h).1

theorem locate_of_le {offset : Nat} (h : offset ≤ width text) :
    (ofText text).locate offset = seek offset 1 ⟨0, text⟩ (lineStarts text) := by
  show seek (min offset (width text)) _ _ _ = _
  rw [Nat.min_eq_left h]
  rfl

/-- Of two boundaries the further one is on a later line, or as many columns to the right on the same
line as there are characters between them. -/
theorem locate_together {a b : Nat} (ha : isBoundary text a = true) (hb : isBoundary text b = true)
    (hab : a ≤ b) :
    ((ofText text).locate a).line < ((ofText text).locate b).line ∨
      ∃ more, b = a + width more ∧ (ofText text).locate b =
        ⟨((ofText text).locate a).line, ((ofText text).locate a).column + more.length⟩ := by
  rw [locate_of_le (le_width_of_isBoundary ha), locate_of_le (le_width_of_isBoundary hb)]
  have hfirst : LineStart.offset ⟨0, text⟩ ≤ a := Nat.zero_le a
  rcases seek_together hab 1 hfirst with hline | ⟨s, hs, hle, n, hseek, hseek'⟩
  · exact Or.inl hline
  · obtain ⟨more, hwidth, hdistance⟩ := distance_add (stands_of_mem_starts hs) ha hb hle hab
    refine Or.inr ⟨more, hwidth, ?_⟩
    rw [hseek, hseek', hdistance, Nat.add_right_comm]

/-- **Positions are in the order of boundaries.** -/
theorem locate_noLater {a b : Nat} (ha : isBoundary text a = true) (hb : isBoundary text b = true)
    (hab : a ≤ b) : ((ofText text).locate a).NoLater ((ofText text).locate b) := by
  rcases locate_together ha hb hab with hline | ⟨more, -, hsame⟩
  · exact Or.inl hline
  · rw [hsame]
    exact Or.inr ⟨rfl, Nat.le_add_right _ _⟩

theorem locate_zero (text : Text) : (ofText text).locate 0 = ⟨1, 1⟩ := by
  have hfirst : distance ⟨0, text⟩ 0 = 0 := distance_width 0 [] text
  rw [locate, Nat.zero_min]
  show seek 0 1 ⟨0, text⟩ (lineStarts text) = _
  cases hlater : lineStarts text with
  | nil => rw [seek, hfirst]
  | cons next later =>
    have hnext : next ∈ lineStarts text := hlater ▸ List.mem_cons_self
    rw [seek_cons_of_lt (stands_of_mem_lineStarts hnext).2, hfirst]

end Index

end YamlStyle
