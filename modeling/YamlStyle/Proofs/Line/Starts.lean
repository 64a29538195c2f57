import Mathlib.Order.Bounds.Basic
import YamlStyle.Proofs.Line.Position

/-!
# Line starts in the index

A line starts at the beginning of a text and behind every line ending. Where a text is divided behind a
break, that is a line start for the index, too, unless the division tears a CR LF apart
(`mem_offsets`), and the index has no others (`exists_of_mem_offsets`). So for an offset with no break
between it and such a division, the division is the last line start that the index has up to there
(`isGreatest_offset`).
-/

set_option autoImplicit false

namespace YamlStyle

/-- A division that goes through a CR LF. -/
def Torn (front back : Text) : Prop := front.getLast? = some '\r' ∧ back.head? = some '\n'

theorem Torn.append {front back : Text} (h : Torn front back) (more : Text) : Torn (more ++ front) back := by
  obtain ⟨hlast, hhead⟩ := h
  exact ⟨by rw [List.getLast?_append, hlast]; rfl, hhead⟩

namespace Index

/-- The offsets of all line starts. -/
def offsets (index : Index) : List Nat := (index.first :: index.later).map (·.offset)

variable {text above line below : Text}

theorem lineEnding_ne_none (hends : EndsLine above) : lineEnding above ≠ .none := by
  intro hnone
  have hcontent := line_append above
  rw [lineBelow_of_no_ending hnone, hnone, List.append_nil, Ending.text, List.append_nil] at hcontent
  obtain ⟨b, hmem, hb⟩ := hends.exists_break
  rw [← hcontent] at hmem
  rw [isBreak_of_mem_lineContent hmem] at hb
  exact absurd hb (by simp)

/-- The first line of a text that ends a line has its ending whatever follows, if that tears nothing. -/
theorem split_lineRest_of_whole (hends : EndsLine above) (hwhole : ¬ Torn above below) :
    Ending.split (lineRest (above ++ below)) = (lineEnding above, lineBelow above ++ below) := by
  by_cases hlast : lineBelow above = []
  · have hrest : lineRest above = (lineEnding above).text := by
      rw [← lineEnding_append_lineBelow, hlast, List.append_nil]
    have habove := lineContent_append_lineRest above
    rw [hrest] at habove
    rw [hends.lineRest_append, hrest, hlast]
    cases hending : lineEnding above with
    | none => exact absurd hending (lineEnding_ne_none hends)
    | lf | crlf => rfl
    | cr =>
      refine Ending.split_cr fun hlf => hwhole ⟨?_, hlf⟩
      rw [← habove, hending]
      simp [Ending.text]
  · exact hends.split_lineRest_append hlast below

/-- Where a line ends, the index has a line start. -/
theorem exists_start_of_endsLine (hends : EndsLine above) (hwhole : ¬ Torn above below)
    (number base : Nat) (before : Text) :
    ∃ s ∈ startsOf (linesFrom number base before (above ++ below)), s.offset = base + width above := by
  induction above using line_induction generalizing number base before with
  | nil => exact absurd rfl hends.ne_nil
  | line above hne ih =>
    have hcontent := hends.lineContent_append below
    have hsplit := split_lineRest_of_whole hends hwhole
    have hending : lineEnding (above ++ below) = lineEnding above := by rw [lineEnding, hsplit]
    have hbelow : lineBelow (above ++ below) = lineBelow above ++ below := by rw [lineBelow, hsplit]
    have hwidth := congrArg width (line_append above)
    rw [width_append, width_append] at hwidth
    rw [startsOf_linesFrom _ _ _ (by rw [hending]; exact lineEnding_ne_none hends), hcontent, hending, hbelow]
    by_cases hlast : lineBelow above = []
    · refine ⟨_, List.mem_cons_self, ?_⟩
      rw [hlast, width_nil] at hwidth
      show base + width (lineContent above) + width (lineEnding above).text = _
      omega
    · have hwhole' : ¬ Torn (lineBelow above) below := by
        intro htorn
        apply hwhole
        rw [← line_append above, ← List.append_assoc]
        exact htorn.append _
      obtain ⟨s, hs, hoffset⟩ := ih (hends.below hlast) hwhole' (number + 1)
        (base + width (lineContent above) + width (lineEnding above).text)
        ((lineEnding above).text.reverse ++ ((lineContent above).reverse ++ before))
      refine ⟨s, List.mem_cons_of_mem _ hs, ?_⟩
      rw [hoffset]
      omega

/-- Behind a break that belongs to no torn CR LF a line starts. -/
theorem mem_offsets (hends : above = [] ∨ EndsLine above) (hwhole : ¬ Torn above below) :
    width above ∈ (ofText (above ++ below)).offsets := by
  rcases hends with rfl | hends
  · exact List.mem_cons_self
  · obtain ⟨s, hs, hoffset⟩ := exists_start_of_endsLine hends hwhole 1 0 []
    rw [Nat.zero_add] at hoffset
    rw [← hoffset]
    exact List.mem_map_of_mem (List.mem_cons_of_mem _ hs)

/-- Nowhere else does a line start. -/
theorem exists_of_mem_offsets {offset : Nat} (h : offset ∈ (ofText text).offsets) :
    ∃ before after, text = before ++ after ∧ offset = width before ∧ (before = [] ∨ EndsLine before) := by
  rcases List.mem_cons.mp h with rfl | h
  · exact ⟨[], text, rfl, rfl, Or.inl rfl⟩
  · obtain ⟨s, hs, rfl⟩ := List.mem_map.mp h
    obtain ⟨l, hl, rfl⟩ := List.mem_map.mp hs
    obtain ⟨hmem, hterminated⟩ := List.mem_filter.mp hl
    have hstands := stands_of_mem_lines hmem
    have hending : l.ending ≠ .none := by simpa [Line.isTerminated] using hterminated
    refine ⟨l.before.reverse ++ l.content ++ l.ending.text, l.after, ?_, hstands.nextStart_eq,
      Or.inr ((Ending.endsLine hending).append _)⟩
    rw [List.append_assoc, List.append_assoc]
    exact hstands.text

/-- **The line start that an offset belongs to**, if there is no break in between. -/
theorem isGreatest_offset (hends : above = [] ∨ EndsLine above) (hwhole : ¬ Torn above (line ++ below))
    (hflat : ∀ c ∈ line, isBreak c = false) :
    IsGreatest {offset | offset ∈ (ofText (above ++ (line ++ below))).offsets ∧
      offset ≤ width (above ++ line)} (width above) := by
  refine ⟨⟨mem_offsets hends hwhole, by rw [width_append]; exact Nat.le_add_right _ _⟩, ?_⟩
  rintro offset ⟨hmem, hle⟩
  obtain ⟨before, after, htext, rfl, hbefore⟩ := exists_of_mem_offsets hmem
  by_contra hgt
  have hlt := Nat.lt_of_not_le hgt
  -- A later one would have a break of the line in front of it.
  obtain ⟨inner, rfl, hrest⟩ := exists_append_of_width_le htext (Nat.le_of_lt hlt)
  have hne : inner ≠ [] := by
    rintro rfl
    rw [List.append_nil] at hlt
    exact Nat.lt_irrefl _ hlt
  have hinner : EndsLine inner := by
    rcases hbefore with hnil | hbefore
    · exact absurd (List.append_eq_nil_iff.mp hnil).2 hne
    · exact hbefore.of_append above hne
  have hwidth : width inner ≤ width line := by
    rw [width_append, width_append] at hle
    omega
  obtain ⟨more, rfl, -⟩ := exists_append_of_width_le hrest.symm hwidth
  obtain ⟨b, hb, hbreak⟩ := hinner.exists_break
  rw [hflat b (List.mem_append_left _ hb)] at hbreak
  exact absurd hbreak (by simp)

end Index

end YamlStyle
