import Mathlib.Data.List.Pairwise
import YamlStyle.Proofs.Line.Locate
import YamlStyle.Proofs.Line.Offsets
import YamlStyle.Proofs.Scanner.Partition
import YamlStyle.Proofs.Scanner.TokenEnd

/-!
# Comments and what stands before them

A comment belongs to one line: it runs from its `#` to the end of the content (`exists_lineComment`),
so there is no room for a second one (`comments_of_line`).

Whether anything but blanks stands before the `#` shows in the tokens. No content is lost, so a character
there is part of a token, and no comment, which would have taken the `#` along (`exists_token_before`).
The other way round, a token that ends behind the start of the line and before the `#` ends in a
character of the line, and it is no blank: there is still a `#` on the line (`exists_char_of_token`).
-/

set_option autoImplicit false

namespace YamlStyle

variable {text : Text} {l : Line}

/-! ## A comment and its line -/

/-- A comment runs from its `#` to the end of the content of a line. -/
structure LineComment (text : Text) (t : RawToken) (l : Line) (front back : Text) : Prop where
  mem : l ∈ lines text
  content : l.content = front ++ '#' :: back
  start : t.start = l.start + width front
  stop : t.stop = l.stop

theorem exists_lineComment {t : RawToken} (ht : t ∈ (yamlScanner text).tokens)
    (hkind : t.kind = .comment) : ∃ l front back, LineComment text t l front back := by
  obtain ⟨front, rest, htext, hstart, hstop⟩ := exists_comment ht hkind
  obtain ⟨l, hl, inner, hcontent, hfront⟩ := exists_line_of_char htext (by decide)
  have hstands := stands_of_mem_lines hl
  rw [hfront, width_append, ← hstands.start] at hstart hstop
  refine ⟨l, inner, lineContent rest, hl, hcontent, hstart, ?_⟩
  rw [hstop, Line.stop, hcontent, width_append, Nat.add_assoc]

namespace LineComment

variable {t : RawToken} {front back : Text}

theorem bounds (h : LineComment text t l front back) : l.start ≤ t.start ∧ t.start < l.stop := by
  have hpos : 0 < width ('#' :: back) := width_pos (by simp)
  rw [h.start, Line.stop, h.content, width_append]
  omega

theorem text_eq (h : LineComment text t l front back) :
    text = l.before.reverse ++ front ++ ('#' :: back ++ (l.ending.text ++ l.after)) := by
  have htext := (stands_of_mem_lines h.mem).text
  rw [h.content] at htext
  simpa using htext

theorem spells (h : LineComment text t l front back) : t.Spells text ('#' :: back) := by
  have hstands := stands_of_mem_lines h.mem
  refine ⟨l.before.reverse ++ front, l.ending.text ++ l.after, h.text_eq, ?_, ?_⟩
  · rw [h.start, hstands.start, width_append]
  · rw [h.stop, hstands.stop_eq, h.content, ← width_append, List.append_assoc]

/-- The position of a comment. -/
theorem locate_start (h : LineComment text t l front back) :
    (Index.ofText text).locate t.start = ⟨l.number, front.length + 1⟩ := by
  obtain ⟨hstart, hstop⟩ := h.bounds
  have hline : l.lineStart = ⟨l.start, front ++ ('#' :: back ++ l.ending.text ++ l.after)⟩ := by
    rw [Line.lineStart, h.content]
    simp
  rw [Index.locate_of_holds h.mem (Line.holds_of_le hstart (Nat.le_of_lt hstop)), hline, h.start,
    Index.distance_width]

theorem locate_stop (h : LineComment text t l front back) :
    (Index.ofText text).locate t.stop = ⟨l.number, l.content.length + 1⟩ := by
  have hline : l.lineStart = ⟨l.start, l.content ++ (l.ending.text ++ l.after)⟩ := by
    rw [Line.lineStart, List.append_assoc]
  have hholds : l.Holds l.stop := Line.holds_of_le (Nat.le_add_right _ _) (Nat.le_refl _)
  rw [h.stop, Index.locate_of_holds h.mem hholds, hline, Line.stop, Index.distance_width]

end LineComment

/-! ## Tokens -/

/-- Of two tokens of a scan, the one that starts first ends before the other starts. -/
theorem apart {t u : RawToken} (ht : t ∈ (yamlScanner text).tokens) (hu : u ∈ (yamlScanner text).tokens)
    (hne : t ≠ u) (hle : t.start ≤ u.start) : t.stop ≤ u.start := by
  have hsymm : Std.Symm fun a b : RawToken => a.stop ≤ b.start ∨ b.stop ≤ a.start :=
    ⟨fun _ _ h => h.symm⟩
  have hpairwise : (yamlScanner text).tokens.Pairwise
      fun a b => a.stop ≤ b.start ∨ b.stop ≤ a.start := (pairwise_tokens text).imp Or.inl
  have hextent := (extent_of_mem_tokens hu).1
  rcases hpairwise.forall ht hu hne with h | h
  · exact h
  · omega

theorem eq_of_start_eq {t u : RawToken} (ht : t ∈ (yamlScanner text).tokens)
    (hu : u ∈ (yamlScanner text).tokens) (h : t.start = u.start) : t = u := by
  by_contra hne
  have hapart := apart ht hu hne (Nat.le_of_eq h)
  have hextent := (extent_of_mem_tokens ht).1
  omega

/-- Characters that are no layout are in tokens. -/
theorem Scanner.Tiling.exists_token {start : Nat} {tokens : List RawToken} {front back : Text} {c : Char}
    (h : Scanner.Tiling start text tokens) (htext : text = front ++ c :: back)
    (hc : isLayout c = false) :
    ∃ t ∈ tokens, t.start ≤ start + width front ∧ start + width front < t.stop := by
  induction h generalizing front with
  | done start => exact absurd htext (by simp)
  | @layout start d rest tokens hd _ ih =>
    cases front with
    | nil =>
      obtain ⟨rfl, -⟩ := List.cons.inj htext
      exact absurd (hc.symm.trans hd) (by simp)
    | cons e front =>
      obtain ⟨rfl, hrest⟩ := List.cons.inj htext
      obtain ⟨t, ht, hspan⟩ := ih hrest
      rw [Nat.add_assoc, ← width_cons] at hspan
      exact ⟨t, ht, hspan⟩
  | @token start piece rest tokens kind hne _ _ ih =>
    rcases char_append_cases htext with ⟨m, rfl⟩ | ⟨front', rfl, hrest⟩
    · refine ⟨_, List.mem_cons_self, Nat.le_add_right _ _, ?_⟩
      have hpos : 0 < width (c :: m) := width_pos (by simp)
      show start + width front < start + width (front ++ c :: m)
      rw [width_append]
      omega
    · obtain ⟨t, ht, hspan⟩ := ih hrest
      rw [Nat.add_assoc, ← width_append] at hspan
      exact ⟨t, List.mem_cons_of_mem _ ht, hspan⟩

theorem exists_token_of_char {front back : Text} {c : Char} (htext : text = front ++ c :: back)
    (hc : isLayout c = false) (hread : width front < Scanner.stopOffset (.initial text) text) :
    ∃ t ∈ (yamlScanner text).tokens, t.start ≤ width front ∧ width front < t.stop := by
  obtain ⟨taken, left, hparts, htiling, hstop⟩ := exists_taken text
  have htaken : ∃ m, taken = front ++ c :: m := by
    rcases char_append_cases (hparts.symm.trans htext) with htaken | ⟨front', hfront, -⟩
    · exact htaken
    · rw [hstop, hfront, width_append] at hread
      omega
  obtain ⟨m, hm⟩ := htaken
  have hcovered := htiling.exists_token hm hc
  rwa [Nat.zero_add] at hcovered

/-- The end of a token is on the line of its last character, and nothing more is on that line if the
character is a blank. -/
theorem exists_line_of_stop {t : RawToken} (ht : t ∈ (yamlScanner text).tokens) :
    ∃ l ∈ lines text, l.start < t.stop ∧ t.stop ≤ l.stop ∧
      ∃ inner d after, l.content = inner ++ [d] ++ after ∧ t.stop = l.start + width (inner ++ [d]) ∧
        (isBlank d = true → after = []) := by
  obtain ⟨front, d, back, htext, hstop, hbreak, hblank⟩ := exists_last ht
  obtain ⟨l, hl, inner, hcontent, hfront⟩ := exists_line_of_char htext hbreak
  rw [hfront, List.append_assoc, width_append, ← (stands_of_mem_lines hl).start] at hstop
  rw [List.append_cons] at hcontent
  have hpos : 0 < width (inner ++ [d]) := width_pos (by simp)
  have hend : l.stop = l.start + (width (inner ++ [d]) + width (lineContent back)) := by
    rw [Line.stop, hcontent, width_append (inner ++ [d])]
  exact ⟨l, hl, by omega, by omega, inner, d, lineContent back, hcontent, hstop, hblank⟩

/-! ## What stands before a comment -/

namespace LineComment

variable {t : RawToken} {front back : Text}

/-- A token that ends on the line of a comment, before it, ends in a character that is no blank. -/
theorem exists_char_of_token (h : LineComment text t l front back) {u : RawToken}
    (hu : u ∈ (yamlScanner text).tokens) (hstart : l.start < u.stop) (hstop : u.stop ≤ t.start) :
    ∃ c ∈ front, isBlank c = false := by
  obtain ⟨l', hl', hstart', hstop', inner, d, after, hcontent, hend, hblank⟩ := exists_line_of_stop hu
  have hbefore := h.bounds.2
  have hholds : l.Holds u.stop := Line.holds_of_le (Nat.le_of_lt hstart) (by omega)
  obtain rfl := Index.eq_of_holds hholds (Line.holds_of_le (Nat.le_of_lt hstart') hstop') h.mem hl'
  -- On this line the token ends before the `#`, which therefore stands behind its last character.
  have hle : width (inner ++ [d]) ≤ width front := by
    have hcomment := h.start
    omega
  obtain ⟨middle, rfl, hafter⟩ := exists_append_of_width_le (hcontent.symm.trans h.content) hle
  refine ⟨d, by simp, ?_⟩
  rw [← Bool.not_eq_true]
  intro hd
  rw [hblank hd] at hafter
  exact absurd hafter (by simp)

/-- A character before a comment that is no blank is in a token that ends before the comment. -/
theorem exists_token_before (h : LineComment text t l front back)
    (ht : t ∈ (yamlScanner text).tokens) {c : Char} (hc : c ∈ front) (hblank : isBlank c = false) :
    ∃ u ∈ (yamlScanner text).tokens, u.kind ≠ .comment ∧ l.start < u.stop ∧ u.stop ≤ t.start := by
  obtain ⟨above, between, rfl⟩ := List.append_of_mem hc
  have hstands := stands_of_mem_lines h.mem
  have hbreak : isBreak c = false := hstands.content c (by rw [h.content]; simp)
  have htext : text = (l.before.reverse ++ above) ++
      c :: (between ++ ('#' :: back ++ (l.ending.text ++ l.after))) := by
    simpa using h.text_eq
  have hoffset : width (l.before.reverse ++ above) = l.start + width above := by
    rw [width_append, ← hstands.start]
  have hstart : l.start + width above < t.start := by
    have hpos := c.utf8Size_pos
    rw [h.start, width_append, width_cons]
    omega
  obtain ⟨hextent, hread⟩ := extent_of_mem_tokens ht
  obtain ⟨u, hu, hle, hlt⟩ :=
    exists_token_of_char htext (by simp [isLayout, hblank, hbreak]) (by omega)
  rw [hoffset] at hle hlt
  have hne : u ≠ t := by
    rintro rfl
    omega
  have hstop := apart hu ht hne (by omega)
  refine ⟨u, hu, ?_, by omega, hstop⟩
  intro hkind
  obtain ⟨l', front', back', hcomment⟩ := exists_lineComment hu hkind
  have hbounds := h.bounds
  have hbounds' := hcomment.bounds
  have hend := hcomment.stop
  -- A comment that has the character is on the same line and reaches to its end.
  have hholds : l.Holds (l.start + width above) := Line.holds_of_le (by omega) (by omega)
  obtain rfl := Index.eq_of_holds hholds (Line.holds_of_le (by omega) (by omega)) h.mem hcomment.mem
  omega

end LineComment

theorem stop_of_comment {t : RawToken} (ht : t ∈ (yamlScanner text).tokens) (hkind : t.kind = .comment)
    (hl : l ∈ lines text) (hstart : l.start ≤ t.start) (hstop : t.start < l.nextStart) :
    t.stop = l.stop := by
  obtain ⟨l', front, back, hcomment⟩ := exists_lineComment ht hkind
  obtain ⟨hstart', hstop'⟩ := hcomment.bounds
  have hholds : l.Holds t.start := ⟨hstart, Or.inl hstop⟩
  obtain rfl :=
    Index.eq_of_holds hholds (Line.holds_of_le hstart' (Nat.le_of_lt hstop')) hl hcomment.mem
  exact hcomment.stop

/-- There is no second comment on a line. -/
theorem comments_of_line (hl : l ∈ lines text) :
    ((yamlScanner text).tokens.filter fun t =>
      t.kind = .comment ∧ l.start ≤ t.start ∧ t.start < l.nextStart).length ≤ 1 := by
  have hordered := (pairwise_tokens text).filter fun t =>
    t.kind = .comment ∧ l.start ≤ t.start ∧ t.start < l.nextStart
  have hmem : ∀ t ∈ (yamlScanner text).tokens.filter (fun t =>
      t.kind = .comment ∧ l.start ≤ t.start ∧ t.start < l.nextStart),
      t.start < t.stop ∧ t.stop = l.stop := by
    intro t ht
    obtain ⟨htoken, hcomment⟩ := List.mem_filter.mp ht
    obtain ⟨hkind, hstart, hstop⟩ := of_decide_eq_true hcomment
    exact ⟨(extent_of_mem_tokens htoken).1, stop_of_comment htoken hkind hl hstart hstop⟩
  generalize (yamlScanner text).tokens.filter _ = comments at hordered hmem
  match comments with
  | [] => exact Nat.zero_le _
  | [_] => exact Nat.le_refl _
  | t :: u :: _ =>
    -- Two of them would end at the same place, one before the other.
    have hlt := (List.pairwise_cons.mp hordered).1 u List.mem_cons_self
    have ht := hmem t List.mem_cons_self
    have hu := hmem u (List.mem_cons_of_mem t List.mem_cons_self)
    omega

end YamlStyle
