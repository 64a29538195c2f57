import YamlStyle.Proofs.Line.Position

/-!
# The place of a character

A position that `Index.locate` computes is not always a place in the document: the offset behind a
final line ending has one, and `lines` knows nothing of the line it is on. An offset at which a
character of some line's content stands is different. It leads to that line, and its column counts the
characters in front (`locate_of_char`), so that it **marks** a place of the document.
-/

set_option autoImplicit false

namespace YamlStyle

/-- A line of the document, and the column of one of its characters or the column behind the last. -/
def Marks (text : Text) (line column : Nat) : Prop :=
  ∃ l ∈ lines text, l.number = line ∧ 1 ≤ column ∧ column ≤ l.content.length + 1

/-- A character of two texts put together is in the first or in the second. -/
theorem char_append_cases {first second front back : Text} {c : Char}
    (h : first ++ second = front ++ c :: back) :
    (∃ m, first = front ++ c :: m) ∨
      ∃ front', front = first ++ front' ∧ second = front' ++ c :: back := by
  rcases List.append_eq_append_iff.mp h with hsecond | ⟨m, rfl, hm⟩
  · exact Or.inr hsecond
  · cases m with
    | nil => exact Or.inr ⟨[], by simp, by simpa using hm.symm⟩
    | cons d m =>
      obtain ⟨rfl, -⟩ := List.cons.inj hm
      exact Or.inl ⟨m, rfl⟩

/-- A character that is no break is in the content of the first line, or below that line. -/
theorem char_line_cases {text front back : Text} {c : Char} (htext : text = front ++ c :: back)
    (hc : isBreak c = false) :
    (∃ m, lineContent text = front ++ c :: m) ∨
      ∃ front', front = lineContent text ++ ((lineEnding text).text ++ front') ∧
        lineBelow text = front' ++ c :: back := by
  rcases char_append_cases ((line_append text).trans htext) with hcontent | ⟨front', rfl, hrest⟩
  · exact Or.inl hcontent
  · rcases char_append_cases hrest with ⟨m, hending⟩ | ⟨front', rfl, hbelow⟩
    · have hmem : c ∈ (lineEnding text).text := by rw [hending]; simp
      rw [isBreak_of_mem_ending hmem] at hc
      exact absurd hc (by simp)
    · exact Or.inr ⟨front', rfl, hbelow⟩

theorem lineContent_of_char {text front back m : Text} {c : Char} (htext : text = front ++ c :: back)
    (h : lineContent text = front ++ c :: m) : m = lineContent back := by
  have hall : ∀ d ∈ front ++ [c], (!isBreak d) = true := by
    intro d hd
    have hmem : d ∈ lineContent text := by
      rw [h, List.append_cons]
      exact List.mem_append_left m hd
    rw [isBreak_of_mem_lineContent hmem]
    rfl
  have hcontent : lineContent (front ++ [c] ++ back) = front ++ [c] ++ lineContent back :=
    List.takeWhile_append_of_pos hall
  rw [List.append_cons] at htext h
  rw [htext, hcontent] at h
  exact (List.append_cancel_left h).symm

theorem exists_line_of_char_from {text front back : Text} {c : Char} (htext : text = front ++ c :: back)
    (hc : isBreak c = false) (number start : Nat) (before : Text) :
    ∃ l ∈ linesFrom number start before text, ∃ inner, l.content = inner ++ c :: lineContent back ∧
      before.reverse ++ front = l.before.reverse ++ inner := by
  induction text using line_induction generalizing front number start before with
  | nil => exact absurd htext (by simp)
  | line text hne ih =>
    rw [linesFrom_of_ne_nil _ _ _ hne]
    rcases char_line_cases htext hc with ⟨m, hm⟩ | ⟨front', rfl, hbelow⟩
    · obtain rfl := lineContent_of_char htext hm
      exact ⟨_, List.mem_cons_self, front, hm, rfl⟩
    · obtain ⟨l, hl, inner, hcontent, hfront⟩ := ih hbelow (number + 1)
        (start + width (lineContent text) + width (lineEnding text).text)
        ((lineEnding text).text.reverse ++ ((lineContent text).reverse ++ before))
      refine ⟨l, List.mem_cons_of_mem _ hl, inner, hcontent, ?_⟩
      simpa using hfront

/-- A character that is no break is in the content of a line, and what follows it there is what follows
it in the text. -/
theorem exists_line_of_char {text front back : Text} {c : Char} (htext : text = front ++ c :: back)
    (hc : isBreak c = false) :
    ∃ l ∈ lines text, ∃ inner, l.content = inner ++ c :: lineContent back ∧
      front = l.before.reverse ++ inner :=
  exists_line_of_char_from htext hc 1 0 []

namespace Index

/-- Walking to a character over the starts of lines ends on the line it is in. -/
theorem seek_of_char {text front back : Text} {c : Char} (htext : text = front ++ c :: back)
    (hc : isBreak c = false) (number base : Nat) (before : Text) :
    ∃ l ∈ linesFrom number base before text, ∃ m m', l.content = m ++ c :: m' ∧
      seek (base + width front) number ⟨base, text⟩ (startsOf (linesFrom number base before text)) =
        ⟨l.number, m.length + 1⟩ := by
  induction text using line_induction generalizing front number base before with
  | nil => exact absurd htext (by simp)
  | line text hne ih =>
    rw [linesFrom_of_ne_nil _ _ _ hne]
    rcases char_line_cases htext hc with ⟨m, hm⟩ | ⟨front', hfront, hbelow⟩
    · -- The character is on the first line, and every other line starts behind it.
      refine ⟨_, List.mem_cons_self, front, m, hm, ?_⟩
      have hwidth := congrArg width hm
      rw [width_append] at hwidth
      have hdistance := distance_width base front (c :: back)
      rw [← htext] at hdistance
      rw [← linesFrom_of_ne_nil _ _ _ hne]
      by_cases hending : lineEnding text = .none
      · rw [startsOf_linesFrom_last _ _ _ hending, seek, hdistance]
      · rw [startsOf_linesFrom _ _ _ hending, seek_cons_of_lt, hdistance]
        show base + width front < base + width (lineContent text) + width (lineEnding text).text
        have hpos : 0 < width (c :: m) := width_pos (by simp)
        omega
    · -- The character is below the first line, which then has an ending.
      have hending : lineEnding text ≠ .none := by
        intro hnone
        rw [lineBelow_of_no_ending hnone] at hbelow
        exact absurd hbelow (by simp)
      obtain ⟨l, hl, m, m', hcontent, hseek⟩ := ih hbelow (number + 1)
        (base + width (lineContent text) + width (lineEnding text).text)
        ((lineEnding text).text.reverse ++ ((lineContent text).reverse ++ before))
      refine ⟨l, List.mem_cons_of_mem _ hl, m, m', hcontent, ?_⟩
      have hwidth : base + width front =
          base + width (lineContent text) + width (lineEnding text).text + width front' := by
        rw [hfront, width_append, width_append]
        omega
      rw [← linesFrom_of_ne_nil _ _ _ hne, startsOf_linesFrom _ _ _ hending, seek_cons_of_le, hwidth,
        hseek]
      show base + width (lineContent text) + width (lineEnding text).text ≤ base + width front
      omega

/-- **The position of a character** is the number of its line and one more than the characters in front
of it on that line. -/
theorem locate_of_char {text front back : Text} {c : Char} (htext : text = front ++ c :: back)
    (hc : isBreak c = false) :
    ∃ l ∈ lines text, ∃ m m', l.content = m ++ c :: m' ∧
      (ofText text).locate (width front) = ⟨l.number, m.length + 1⟩ := by
  have hle : width front ≤ width text := by
    rw [htext, width_append]
    exact Nat.le_add_right _ _
  have hseek := seek_of_char htext hc 1 0 []
  rw [Nat.zero_add] at hseek
  rw [locate]
  show ∃ l ∈ lines text, ∃ m m', l.content = m ++ c :: m' ∧ seek (min _ (width text)) 1 _ _ = _
  rw [Nat.min_eq_left hle]
  exact hseek

theorem marks_locate_of_char {text front back : Text} {c : Char} (htext : text = front ++ c :: back)
    (hc : isBreak c = false) :
    Marks text ((ofText text).locate (width front)).line
      ((ofText text).locate (width front)).column := by
  obtain ⟨l, hl, m, m', hcontent, hlocate⟩ := locate_of_char htext hc
  rw [hlocate]
  refine ⟨l, hl, rfl, Nat.le_add_left _ _, ?_⟩
  rw [hcontent, List.length_append]
  show m.length + 1 ≤ _
  omega

end Index

end YamlStyle
