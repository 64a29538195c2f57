import YamlStyle.Proofs.Line.Locate
import YamlStyle.Proofs.Scanner.Reaches

/-!
# Where the scanner takes a line to begin

The scanner has no lines. It keeps the offset where the current one starts and moves it whenever it has
taken a break: behind a line ending, and inside a token that runs over several lines behind the last
break of the token. `Reads` is what this offset says about the text that was read, and `OnLine` adds that
it is the right one: what stands above the line ends a line, and what was read of the line has no break.

`lines` has its own idea of where a line starts. In front of a character that is no break the two ideas
agree (`endsLine_of_start`, `exists_line_of_endsLine`), because an offset between CR and LF is the only
one on which they could differ.
-/

set_option autoImplicit false

namespace YamlStyle

/-! ## Line starts -/

theorem endsLine_of_mem_linesFrom {number start : Nat} {before text : Text} {l : Line}
    (h : l ∈ linesFrom number start before text) :
    l.before = before ∨ EndsLine l.before.reverse := by
  induction text using line_induction generalizing number start before with
  | nil => simp [linesFrom] at h
  | line text hne ih =>
    rw [linesFrom_of_ne_nil _ _ _ hne] at h
    rcases List.mem_cons.mp h with rfl | h
    · exact Or.inl rfl
    · right
      rcases ih h with hbefore | hends
      · -- A line follows, so the first one has an ending.
        have hending : lineEnding text ≠ .none := by
          intro hnone
          rw [lineBelow_of_no_ending hnone, linesFrom] at h
          exact absurd h List.not_mem_nil
        rw [hbefore, List.reverse_append, List.reverse_reverse]
        exact (Ending.endsLine hending).append _
      · exact hends

/-- What stands above a line is nothing, or ends a line. -/
theorem endsLine_of_start {text front back : Text} {l : Line} (hl : l ∈ lines text)
    (htext : text = front ++ back) (hstart : l.start = width front) : front = [] ∨ EndsLine front := by
  have hstands := stands_of_mem_lines hl
  obtain ⟨rfl, -⟩ :=
    append_inj_of_width_eq (htext.symm.trans hstands.text) (hstart.symm.trans hstands.start)
  rcases endsLine_of_mem_linesFrom hl with hnil | hends
  · left
    rw [hnil]
    rfl
  · exact Or.inr hends

/-- A character that is no break, with nothing or the end of a line in front of it, is the first of a
line. -/
theorem exists_line_of_endsLine {text front back : Text} {c : Char} (htext : text = front ++ c :: back)
    (hc : isBreak c = false) (hfront : front = [] ∨ EndsLine front) :
    ∃ l ∈ lines text, l.start = width front ∧ l.content = c :: lineContent back := by
  obtain ⟨l, hl, inner, hcontent, hinner⟩ := exists_line_of_char htext hc
  have hstands := stands_of_mem_lines hl
  -- What is on the line in front of the character has no break, so there is nothing.
  obtain rfl : inner = [] := by
    by_contra hne
    have hends : EndsLine inner := by
      rcases hfront with rfl | hends
      · exact absurd (List.append_eq_nil_iff.mp hinner.symm).2 hne
      · exact (hinner ▸ hends).of_append _ hne
    obtain ⟨b, hmem, hb⟩ := hends.exists_break
    rw [hstands.content b (hcontent ▸ List.mem_append_left _ hmem)] at hb
    exact absurd hb (by simp)
  rw [List.append_nil] at hinner
  exact ⟨l, hl, by rw [hstands.start, hinner], hcontent⟩

namespace Scanner

/-! ## The last line of a lexeme -/

theorem lastLine?_append {text front last : Text} (h : lastLine? text = some (front, last)) :
    text = front ++ last := by
  induction text generalizing front with
  | nil => exact absurd h (by simp [lastLine?])
  | cons c text ih =>
    rw [lastLine?] at h
    split at h
    · rename_i front' last' heq
      obtain ⟨rfl, rfl⟩ := Prod.mk.inj (Option.some.inj h)
      rw [ih heq, List.cons_append]
    · split at h
      · obtain ⟨rfl, rfl⟩ := Prod.mk.inj (Option.some.inj h)
        rfl
      · exact absurd h (by simp)

theorem isBreak_of_lastLine?_none {text : Text} (h : lastLine? text = none) :
    ∀ c ∈ text, isBreak c = false := by
  induction text with
  | nil => simp
  | cons c text ih =>
    rw [lastLine?] at h
    split at h
    · exact absurd h (by simp)
    · rename_i hnone
      split at h
      · exact absurd h (by simp)
      · rename_i hc
        simpa [hc] using ih hnone

theorem of_lastLine?_some {text front last : Text} (h : lastLine? text = some (front, last)) :
    EndsLine front ∧ ∀ c ∈ last, isBreak c = false := by
  induction text generalizing front with
  | nil => exact absurd h (by simp [lastLine?])
  | cons c text ih =>
    rw [lastLine?] at h
    split at h
    · rename_i front' last' heq
      obtain ⟨rfl, rfl⟩ := Prod.mk.inj (Option.some.inj h)
      exact ⟨(ih heq).1.append [c], (ih heq).2⟩
    · rename_i hnone
      split at h
      · rename_i hc
        obtain ⟨rfl, rfl⟩ := Prod.mk.inj (Option.some.inj h)
        exact ⟨⟨[], c, rfl, hc⟩, isBreak_of_lastLine?_none hnone⟩
      · exact absurd h (by simp)

/-! ## What a state says -/

@[simp] theorem track_lineStart (s : State) (kind : TokenKind) :
    (s.track kind).lineStart = s.lineStart := by
  cases kind <;> rfl

/-- What the state says about the text: it stands behind `above` and `line`, the latter being what was
read of the current line. -/
structure Reads (whole : Text) (s : State) (above line left : Text) : Prop where
  whole : whole = above ++ (line ++ left)
  lineStart : s.lineStart = width above
  pos : s.pos = width (above ++ line)

variable {whole : Text} {s : State} {above line left : Text}

namespace Reads

theorem track (h : Reads whole s above line left) (kind : TokenKind) :
    Reads whole (s.track kind) above line left :=
  ⟨h.whole, by rw [track_lineStart, h.lineStart], by rw [track_pos, h.pos]⟩

theorem advance_of_none {taken : Text} (h : Reads whole s above line (taken ++ left))
    (hlast : lastLine? taken = none) : Reads whole (s.advance taken left) above (line ++ taken) left := by
  rw [State.advance, hlast]
  refine ⟨?_, h.lineStart, ?_⟩
  · rw [h.whole, List.append_assoc]
  · show s.pos + width taken = _
    rw [h.pos, ← width_append, List.append_assoc]

theorem advance_of_some {taken front last : Text} (h : Reads whole s above line (taken ++ left))
    (hlast : lastLine? taken = some (front, last)) :
    Reads whole (s.advance taken left) (above ++ line ++ front) last left := by
  have htaken := lastLine?_append hlast
  rw [State.advance, hlast]
  refine ⟨?_, ?_, ?_⟩
  · rw [h.whole, htaken]
    simp only [List.append_assoc]
  · show s.pos + width front = _
    rw [h.pos, ← width_append]
  · show s.pos + width taken = _
    rw [h.pos, ← width_append, htaken, List.append_assoc, List.append_assoc, List.append_assoc]

/-- Moving on keeps what the state says. -/
theorem advance {taken : Text} (h : Reads whole s above line (taken ++ left)) :
    ∃ above line, Reads whole (s.advance taken left) above line left := by
  cases hlast : lastLine? taken with
  | none => exact ⟨_, _, h.advance_of_none hlast⟩
  | some cut => exact ⟨_, _, h.advance_of_some hlast⟩

end Reads

/-- The line that the state is on begins behind a break or at the beginning of the text, and there is no
break in what was read of it. -/
structure OnLine (whole : Text) (s : State) (above line left : Text) : Prop
    extends Reads whole s above line left where
  ends : above = [] ∨ EndsLine above
  flat : ∀ c ∈ line, isBreak c = false

namespace OnLine

theorem track (h : OnLine whole s above line left) (kind : TokenKind) :
    OnLine whole (s.track kind) above line left :=
  ⟨h.toReads.track kind, h.ends, h.flat⟩

theorem advance_of_none {taken : Text} (h : OnLine whole s above line (taken ++ left))
    (hlast : lastLine? taken = none) : OnLine whole (s.advance taken left) above (line ++ taken) left := by
  have htaken := isBreak_of_lastLine?_none hlast
  refine ⟨h.toReads.advance_of_none hlast, h.ends, ?_⟩
  intro c hc
  rcases List.mem_append.mp hc with hc | hc
  · exact h.flat c hc
  · exact htaken c hc

theorem advance_of_some {taken front last : Text} (h : OnLine whole s above line (taken ++ left))
    (hlast : lastLine? taken = some (front, last)) :
    OnLine whole (s.advance taken left) (above ++ line ++ front) last left := by
  obtain ⟨hfront, hflat⟩ := of_lastLine?_some hlast
  exact ⟨h.toReads.advance_of_some hlast, Or.inr (hfront.append _), hflat⟩

/-- The step of the invariant. -/
theorem advance {taken : Text} (h : OnLine whole s above line (taken ++ left)) :
    ∃ above line, OnLine whole (s.advance taken left) above line left := by
  cases hlast : lastLine? taken with
  | none => exact ⟨_, _, h.advance_of_none hlast⟩
  | some cut => exact ⟨_, _, h.advance_of_some hlast⟩

theorem after {taken : Text} (h : OnLine whole s above line (taken ++ left)) (found : Lexeme) :
    ∃ above line, OnLine whole (s.after found taken left) above line left := by
  cases found with
  | layout n => exact h.advance
  | token kind n => exact (h.track kind).advance

/-- Nothing was read of the current line exactly if what was read ends a line. -/
theorem atLineStart_iff (h : OnLine whole s above line left) :
    s.atLineStart = true ↔ above ++ line = [] ∨ EndsLine (above ++ line) := by
  have hline : s.atLineStart = true ↔ line = [] := by
    rw [State.atLineStart, beq_iff_eq, h.pos, h.lineStart, width_append]
    constructor
    · intro hwidth
      apply eq_nil_of_width_eq_zero
      omega
    · rintro rfl
      rfl
  rw [hline]
  constructor
  · rintro rfl
    rw [List.append_nil]
    exact h.ends
  · intro hends
    by_contra hne
    rcases hends with hnil | hends
    · exact hne (List.append_eq_nil_iff.mp hnil).2
    · obtain ⟨b, hmem, hb⟩ := (hends.of_append _ hne).exists_break
      rw [h.flat b hmem] at hb
      exact absurd hb (by simp)

end OnLine

/-- **The scanner is always on the right line.** -/
theorem Reaches.exists_onLine {text : Text} {tokens : List RawToken} {here : State}
    (h : Reaches (.initial text) text tokens here left) :
    ∃ above line, OnLine text here above line left := by
  induction h with
  | start => exact ⟨[], [], ⟨rfl, rfl, rfl⟩, Or.inl rfl, by simp⟩
  | @step tokens here c rest found _ _ ih =>
    obtain ⟨above, line, honline⟩ := ih
    have htaken : OnLine text here above line
        ((c :: rest.take found.length) ++ rest.drop found.length) := by
      rw [List.cons_append, List.take_append_drop]
      exact honline
    exact htaken.after found

/-- At a place of a scan, being at a line start is a matter of what was read. -/
theorem Reaches.atLineStart_iff {text front : Text} {tokens : List RawToken} {here : State}
    (h : Reaches (.initial text) text tokens here left) (htext : text = front ++ left) :
    here.atLineStart = true ↔ front = [] ∨ EndsLine front := by
  obtain ⟨above, line, honline⟩ := h.exists_onLine
  have hparts : front ++ left = above ++ line ++ left := by
    rw [← htext, honline.whole, List.append_assoc]
  rw [List.append_cancel_right hparts]
  exact honline.atLineStart_iff

end Scanner

end YamlStyle
