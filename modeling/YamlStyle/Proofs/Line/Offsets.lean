import Mathlib.Data.List.Nodup
import YamlStyle.Proofs.Line.Position
import YamlStyle.Proofs.Line.Segmentation

/-!
# Offsets and positions correspond

There are two ways to a column. A `Line` counts the characters from its start on, and `Index.locate`
looks up which line start an offset is behind and counts from there. `locate_corresponds` says that the
two agree wherever a line has something to say, that boundaries and positions correspond one to one and
in order, and what becomes of the offsets that are no boundaries.

An offset belongs to the line whose bytes it is among, the ending included. The end of a text belongs to
its last line only if that line has no ending. Behind an ending, or in the empty text, it is the first
column of a line that `lines` does not list.

`Index.locate` answers for every offset, and by its type it could do nothing else. `locate?` is the same
look-up by counting, in which every step that might go wrong is allowed to: there might be no line start
up to the offset, no entry at the index found, or a subtraction below zero. It never fails.
-/

set_option autoImplicit false

namespace YamlStyle

/-- On an earlier line, or on the same line and further to the left. -/
def Position.Before (p q : Position) : Prop :=
  p.line < q.line ∨ p.line = q.line ∧ p.column < q.column

theorem length_le_width (text : Text) : text.length ≤ width text := by
  induction text with
  | nil => exact Nat.le_refl _
  | cons c text ih =>
    have hpos := c.utf8Size_pos
    rw [width_cons, List.length_cons]
    omega

/-- Where a line starts. -/
def Line.lineStart (l : Line) : LineStart := ⟨l.start, l.content ++ l.ending.text ++ l.after⟩

variable {text : Text} {l : Line}

theorem columnOf_eq {offset : Nat} (hl : l.Stands text) (hle : l.start ≤ offset)
    (h : isBoundary text offset = true) :
    l.columnOf offset = Index.distance l.lineStart offset + 1 := by
  obtain ⟨front, back, hfront, rfl⟩ := isBoundary_iff.mp h
  have hle' := hle
  rw [hl.start] at hle
  obtain ⟨inner, rfl, htail⟩ := exists_append_of_width_le (hl.text.symm.trans hfront) hle
  have hsplit : splitAt? (l.content ++ l.ending.text ++ l.after)
      (width (l.before.reverse ++ inner) - l.start) = some (inner, back) := by
    rw [List.append_assoc, htail, hl.start, width_append, Nat.add_sub_cancel_left, splitAt?_width]
  rw [Line.columnOf, if_pos hle', Index.distance, Line.lineStart, hsplit]

/-! ## The line an offset belongs to -/

/-- An offset is among the bytes of a line, or at the end of a line that has no ending. -/
def Line.Holds (l : Line) (offset : Nat) : Prop :=
  l.start ≤ offset ∧ (offset < l.nextStart ∨ offset = l.stop ∧ l.ending = .none)

theorem Line.holds_of_le {offset : Nat} (hstart : l.start ≤ offset) (hstop : offset ≤ l.stop) :
    l.Holds offset := by
  refine ⟨hstart, ?_⟩
  by_cases hending : l.ending = .none
  · by_cases hlt : offset < l.stop
    · exact Or.inl (Nat.lt_of_lt_of_le hlt (Nat.le_add_right _ _))
    · exact Or.inr ⟨by omega, hending⟩
  · have hpos : 0 < width l.ending.text := width_pos (Ending.endsLine hending).ne_nil
    exact Or.inl (Nat.lt_of_le_of_lt hstop (Nat.lt_add_of_pos_right hpos))

theorem eq_of_number_eq {l' : Line} (hl : l ∈ lines text) (hl' : l' ∈ lines text)
    (h : l.number = l'.number) : l = l' := by
  have hnumbers : (lines text).map (·.number) = List.range' 1 (lines text).length :=
    (Segments.linesFrom 1 [] text).numbers
  have hnodup : ((lines text).map (·.number)).Nodup := by
    rw [hnumbers]
    exact List.nodup_range'
  exact List.inj_on_of_nodup_map hnodup hl hl' h

theorem le_start_of_mem_linesFrom {number start : Nat} {before : Text}
    (h : l ∈ linesFrom number start before text) : start ≤ l.start := by
  induction text using line_induction generalizing number start before with
  | nil => simp [linesFrom] at h
  | line text hne ih =>
    rw [linesFrom_of_ne_nil _ _ _ hne] at h
    rcases List.mem_cons.mp h with rfl | h
    · exact Nat.le_refl _
    · have hbelow := ih h
      omega

namespace Index

/-- Walking to an offset ends on the line it belongs to. -/
theorem seek_of_holds {number base : Nat} {before : Text} {offset : Nat}
    (hl : l ∈ linesFrom number base before text) (h : l.Holds offset) :
    seek offset number ⟨base, text⟩ (startsOf (linesFrom number base before text)) =
      ⟨l.number, distance l.lineStart offset + 1⟩ := by
  induction text using line_induction generalizing number base before with
  | nil => simp [linesFrom] at hl
  | line text hne ih =>
    have hlines := hl
    rw [linesFrom_of_ne_nil _ _ _ hne] at hlines
    obtain ⟨hstart, hstop⟩ := h
    rcases List.mem_cons.mp hlines with hfirst | hbelow
    · -- The first line is the text up to the next line start, if there is one.
      have hlineStart : l.lineStart = ⟨base, text⟩ := by
        rw [hfirst, Line.lineStart, List.append_assoc, line_append]
      rw [hlineStart]
      by_cases hending : lineEnding text = .none
      · rw [startsOf_linesFrom_last _ _ _ hending, seek, hfirst]
      · rw [startsOf_linesFrom _ _ _ hending, seek_cons_of_lt, hfirst]
        rcases hstop with hlt | ⟨-, hnone⟩
        · rw [hfirst] at hlt
          exact hlt
        · rw [hfirst] at hnone
          exact absurd hnone hending
    · have hending : lineEnding text ≠ .none := by
        intro hnone
        rw [lineBelow_of_no_ending hnone, linesFrom] at hbelow
        exact absurd hbelow List.not_mem_nil
      have hle := le_start_of_mem_linesFrom hbelow
      rw [startsOf_linesFrom _ _ _ hending, seek_cons_of_le (Nat.le_trans hle hstart)]
      exact ih hbelow

theorem locate_of_holds (hl : l ∈ lines text) {offset : Nat} (h : l.Holds offset) :
    (ofText text).locate offset = ⟨l.number, distance l.lineStart offset + 1⟩ := by
  have hstands := stands_of_mem_lines hl
  have hle : offset ≤ width text := by
    have hwidth := le_width_of_isBoundary hstands.boundaries.2.2
    have hstop : l.stop ≤ l.nextStart := Nat.le_add_right _ _
    rcases h.2 with hlt | ⟨heq, -⟩
    · omega
    · omega
  rw [locate_of_le hle]
  exact seek_of_holds hl h

theorem line_locate {offset : Nat} (hl : l ∈ lines text) (hstart : l.start ≤ offset)
    (hstop : offset ≤ l.stop) : ((ofText text).locate offset).line = l.number := by
  rw [locate_of_holds hl (Line.holds_of_le hstart hstop)]

/-- An offset is on one line only. -/
theorem eq_of_holds {l' : Line} {offset : Nat} (h : l.Holds offset) (h' : l'.Holds offset)
    (hl : l ∈ lines text) (hl' : l' ∈ lines text) : l = l' := by
  have hlocate := locate_of_holds hl h
  rw [locate_of_holds hl' h'] at hlocate
  exact eq_of_number_eq hl hl' (Position.mk.inj hlocate).1.symm

/-- Every byte is in a line. -/
theorem exists_holds_linesFrom (number : Nat) {base : Nat} (before : Text) {offset : Nat}
    (hle : base ≤ offset) (hlt : offset < base + width text) :
    ∃ l ∈ linesFrom number base before text, l.start ≤ offset ∧ offset < l.nextStart := by
  induction text using line_induction generalizing number base before with
  | nil =>
    rw [width_nil] at hlt
    omega
  | line text hne ih =>
    rw [linesFrom_of_ne_nil _ _ _ hne]
    by_cases hfirst : offset < base + width (lineContent text) + width (lineEnding text).text
    · exact ⟨_, List.mem_cons_self, hle, hfirst⟩
    · have hwidth := congrArg width (line_append text)
      rw [width_append, width_append] at hwidth
      obtain ⟨l, hl, hin⟩ := ih (number + 1)
        ((lineEnding text).text.reverse ++ ((lineContent text).reverse ++ before))
        (Nat.le_of_not_lt hfirst) (by omega)
      exact ⟨l, List.mem_cons_of_mem _ hl, hin⟩

/-- Behind an ending a line begins that is not listed. -/
theorem seek_end (number base : Nat) (before : Text) (h : text = [] ∨ EndsLine text) :
    seek (base + width text) number ⟨base, text⟩ (startsOf (linesFrom number base before text)) =
      ⟨number + (linesFrom number base before text).length, 1⟩ := by
  induction text using line_induction generalizing number base before with
  | nil =>
    rw [linesFrom]
    have hdistance : distance ⟨base, []⟩ (base + width []) = 0 := distance_width base [] []
    show seek (base + width []) number ⟨base, []⟩ [] = _
    rw [seek, hdistance]
    rfl
  | line text hne ih =>
    have hends := h.resolve_left hne
    have hending : lineEnding text ≠ .none := by
      intro hnone
      rcases (endsLine_iff text).mp hends with hbelow | ⟨-, hsome⟩
      · exact hbelow.ne_nil (lineBelow_of_no_ending hnone)
      · exact hsome hnone
    have hbelow : lineBelow text = [] ∨ EndsLine (lineBelow text) := by
      by_cases hnil : lineBelow text = []
      · exact Or.inl hnil
      · exact Or.inr (hends.below hnil)
    have hwidth := congrArg width (line_append text)
    rw [width_append, width_append] at hwidth
    rw [startsOf_linesFrom _ _ _ hending, seek_cons_of_le (by show _ + _ + _ ≤ _; omega),
      linesFrom_of_ne_nil _ _ _ hne, List.length_cons]
    have hrest := ih (number + 1) (base + width (lineContent text) + width (lineEnding text).text)
      ((lineEnding text).text.reverse ++ ((lineContent text).reverse ++ before)) hbelow
    rw [← hwidth, ← Nat.add_assoc, ← Nat.add_assoc, hrest]
    simp only [Position.mk.injEq, and_true]
    omega

/-! ## Looking up by counting -/

/-- The position of a byte offset, by counting the line starts up to it. There is none if no line starts
that early, if no entry is found, or if the line starts behind the offset after all. -/
def locate? (index : Index) (offset : Nat) : Option Position :=
  let starts := index.first :: index.later
  let offset := min offset index.length
  match (starts.takeWhile fun s => decide (s.offset ≤ offset)).length with
  | 0 => none
  | above + 1 => do
    let start ← starts[above]?
    if start.offset ≤ offset then some ⟨above + 1, distance start offset + 1⟩ else none

/-- Line starts are in order, so that those up to an offset are the first ones. -/
theorem pairwise_startsOf (number base : Nat) (before text : Text) :
    (⟨base, text⟩ :: startsOf (linesFrom number base before text)).Pairwise
      fun s t => s.offset < t.offset := by
  induction text using line_induction generalizing number base before with
  | nil =>
    rw [linesFrom]
    exact List.pairwise_singleton _ _
  | line text hne ih =>
    by_cases hending : lineEnding text = .none
    · rw [startsOf_linesFrom_last _ _ _ hending]
      exact List.pairwise_singleton _ _
    · rw [startsOf_linesFrom _ _ _ hending]
      have hrest := ih (number + 1) (base + width (lineContent text) + width (lineEnding text).text)
        ((lineEnding text).text.reverse ++ ((lineContent text).reverse ++ before))
      have hpos : 0 < width (lineEnding text).text := width_pos (Ending.endsLine hending).ne_nil
      refine List.pairwise_cons.mpr ⟨?_, hrest⟩
      intro s hs
      rcases List.mem_cons.mp hs with rfl | hs
      · show base < base + width (lineContent text) + width (lineEnding text).text
        omega
      · have hbehind : base + width (lineContent text) + width (lineEnding text).text < s.offset :=
          (List.pairwise_cons.mp hrest).1 s hs
        show base < s.offset
        omega

theorem pairwise_starts (text : Text) :
    ((ofText text).first :: (ofText text).later).Pairwise fun s t => s.offset < t.offset :=
  pairwise_startsOf 1 0 [] text

/-- Walking over line starts and counting them is the same. -/
theorem seek_eq_count {offset : Nat} (number : Nat) {start : LineStart} (later : List LineStart)
    (h : start.offset ≤ offset) :
    ∃ s, (start :: later)[(later.takeWhile fun s => decide (s.offset ≤ offset)).length]? = some s ∧
      s.offset ≤ offset ∧ seek offset number start later =
        ⟨number + (later.takeWhile fun s => decide (s.offset ≤ offset)).length,
          distance s offset + 1⟩ := by
  induction later generalizing number start with
  | nil => exact ⟨start, rfl, h, rfl⟩
  | cons next later ih =>
    by_cases hnext : next.offset ≤ offset
    · obtain ⟨s, hs, hle, hseek⟩ := ih (number + 1) hnext
      rw [List.takeWhile_cons_of_pos (by simpa using hnext), List.length_cons]
      refine ⟨s, hs, hle, ?_⟩
      rw [seek_cons_of_le hnext, hseek, Nat.add_right_comm, Nat.add_assoc]
    · rw [List.takeWhile_cons_of_neg (by simpa using hnext)]
      exact ⟨start, rfl, h, seek_cons_of_lt (Nat.lt_of_not_le hnext)⟩

theorem locate?_eq_some (text : Text) (offset : Nat) :
    (ofText text).locate? offset = some ((ofText text).locate offset) := by
  have hfirst : (ofText text).first.offset ≤ min offset (ofText text).length := Nat.zero_le _
  obtain ⟨s, hs, hle, hseek⟩ := seek_eq_count 1 (ofText text).later hfirst
  rw [locate?, List.takeWhile_cons_of_pos (by simpa using hfirst), List.length_cons]
  simp only [hs]
  show (if s.offset ≤ min offset (ofText text).length then some _ else none) = _
  rw [if_pos hle, locate, hseek, Nat.add_comm 1]

theorem distance_le (start : LineStart) (offset : Nat) :
    distance start offset ≤ offset - start.offset := by
  rw [distance]
  split
  · rename_i front back hsplit
    rw [(eq_append_of_splitAt? hsplit).2]
    exact length_le_width front
  · exact Nat.le_refl _

/-- Every line start is a byte further on at least, and every column is. -/
theorem seek_small {offset : Nat} (number : Nat) {start : LineStart} {later : List LineStart}
    (h : start.offset ≤ offset) (hordered : (start :: later).Pairwise fun s t => s.offset < t.offset) :
    (seek offset number start later).line + (seek offset number start later).column + start.offset ≤
      number + offset + 1 := by
  induction later generalizing number start with
  | nil =>
    have hdistance := distance_le start offset
    show number + (distance start offset + 1) + start.offset ≤ _
    omega
  | cons next later ih =>
    by_cases hnext : next.offset ≤ offset
    · obtain ⟨hbehind, hrest⟩ := List.pairwise_cons.mp hordered
      have hlt := hbehind next List.mem_cons_self
      have hsmall := ih (number + 1) hnext hrest
      rw [seek_cons_of_le hnext]
      omega
    · have hdistance := distance_le start offset
      rw [seek_cons_of_lt (Nat.lt_of_not_le hnext)]
      show number + (distance start offset + 1) + start.offset ≤ _
      omega

/-! ## The correspondence -/

/-- What `locate` makes of the offsets of a text. -/
structure Corresponds (text : Text) : Prop where
  increasing : ∀ a b, isBoundary text a = true → isBoundary text b = true → a < b →
    ((ofText text).locate a).Before ((ofText text).locate b)
  inside : ∀ l ∈ lines text, ∀ offset, isBoundary text offset = true → l.start ≤ offset →
    offset < l.nextStart → (ofText text).locate offset = ⟨l.number, l.columnOf offset⟩
  unended : ∀ l ∈ lines text, l.ending = .none →
    (ofText text).locate l.stop = ⟨l.number, l.columnOf l.stop⟩
  ended : text = [] ∨ EndsLine text →
    (ofText text).locate (width text) = ⟨(lines text).length + 1, 1⟩
  past : ∀ offset, width text ≤ offset →
    (ofText text).locate offset = (ofText text).locate (width text)
  /-- Inside a character, too, it is the line that the byte is in. -/
  within : ∀ offset, offset < width text → ∃ l ∈ lines text, l.start ≤ offset ∧ offset < l.nextStart ∧
    ((ofText text).locate offset).line = l.number
  ordered : ((ofText text).first :: (ofText text).later).Pairwise fun s t => s.offset < t.offset
  total : ∀ offset, (ofText text).locate? offset = some ((ofText text).locate offset)
  /-- Line and column exceed what is in front of the offset by one each at most. -/
  small : ∀ offset, ((ofText text).locate offset).line + ((ofText text).locate offset).column ≤
    min offset (width text) + 2

theorem before_of_lt {a b : Nat} (ha : isBoundary text a = true) (hb : isBoundary text b = true)
    (hab : a < b) : ((ofText text).locate a).Before ((ofText text).locate b) := by
  rcases locate_together ha hb (Nat.le_of_lt hab) with hline | ⟨more, hwidth, hsame⟩
  · exact Or.inl hline
  · have hmore : more ≠ [] := by
      rintro rfl
      rw [width_nil] at hwidth
      omega
    rw [hsame]
    exact Or.inr ⟨rfl, Nat.lt_add_of_pos_right (List.length_pos_iff.mpr hmore)⟩

/-- **Byte offsets and positions correspond one to one.** -/
theorem locate_corresponds (text : Text) : Corresponds text where
  increasing := by
    intro a b ha hb hab
    exact before_of_lt ha hb hab
  inside := by
    intro l hl offset hboundary hle hlt
    rw [locate_of_holds hl ⟨hle, Or.inl hlt⟩, columnOf_eq (stands_of_mem_lines hl) hle hboundary]
  unended := by
    intro l hl hnone
    have hstands := stands_of_mem_lines hl
    have hle : l.start ≤ l.stop := Nat.le_add_right _ _
    rw [locate_of_holds hl ⟨hle, Or.inr ⟨rfl, hnone⟩⟩, columnOf_eq hstands hle hstands.boundaries.2.1]
  ended := by
    intro h
    have hseek := seek_end 1 0 [] h
    rw [Nat.zero_add, Nat.add_comm 1] at hseek
    rw [locate_of_le (Nat.le_refl _)]
    exact hseek
  past := by
    intro offset hle
    show seek (min offset (width text)) _ _ _ = seek (min (width text) (width text)) _ _ _
    rw [Nat.min_eq_right hle, Nat.min_self]
  within := by
    intro offset hlt
    obtain ⟨l, hl, hle, hin⟩ := exists_holds_linesFrom 1 [] (Nat.zero_le offset)
      (Nat.zero_add (width text) ▸ hlt)
    refine ⟨l, hl, hle, hin, ?_⟩
    rw [locate_of_holds hl ⟨hle, Or.inl hin⟩]
  ordered := pairwise_starts text
  total := locate?_eq_some text
  small := by
    intro offset
    have hfirst : (ofText text).first.offset ≤ min offset (ofText text).length := Nat.zero_le _
    have hsmall := seek_small 1 hfirst (pairwise_starts text)
    have hzero : (ofText text).first.offset = 0 := rfl
    have hlength : (ofText text).length = width text := rfl
    rw [locate]
    omega

end Index

end YamlStyle
