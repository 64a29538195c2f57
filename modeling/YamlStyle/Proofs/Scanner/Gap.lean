import YamlStyle.Proofs.Scanner.LineStart
import YamlStyle.Proofs.Scanner.Lockstep

/-!
# Closing a gap

Between two tokens on a line there may be blanks, and they may be taken away. A scan that has come behind
them then goes on as before, over the same text and with offsets that are smaller by the width of the gap
(`run_past_gap`). What it remembers from before the gap stays where it is: where the line starts, if it
starts there, and where collections were opened.

A stretch of text without breaks and brackets leaves nothing in the state but the position
(`after_eq_past`), whether it was read as one token or as many.
-/

set_option autoImplicit false

namespace YamlStyle

namespace Scanner

/-! ## Text without breaks -/

/-- The state behind some text that has no break and neither opens nor closes a collection. -/
def State.past (s : State) (taken : Text) : State := { s with pos := s.pos + width taken }

theorem State.past_append (s : State) (front back : Text) :
    s.past (front ++ back) = (s.past front).past back := by
  simp [State.past, Nat.add_assoc]

theorem lastLine?_of_flat {text : Text} (h : ∀ c ∈ text, isBreak c = false) : lastLine? text = none := by
  induction text with
  | nil => rfl
  | cons c text ih =>
    have htext := ih fun d hd => h d (List.mem_cons_of_mem _ hd)
    simp [lastLine?, htext, h c List.mem_cons_self]

variable {s : State} {c : Char} {rest : Text} {found : Lexeme}

theorem isFlowIndicator_of_bracket {b : Bracket}
    (h : Bracket.ofOpening? c = some b ∨ Bracket.ofClosing? c = some b) : isFlowIndicator c = true := by
  by_contra hc
  simp only [isFlowIndicator, Bool.or_eq_true, beq_iff_eq, not_or] at hc
  simp [Bracket.ofOpening?, Bracket.ofClosing?, hc] at h

/-- Only a bracket changes which collections are open. -/
theorem track_eq {kind : TokenKind} {n : Nat} (h : lexeme s c rest = .ok (.token kind n))
    (hc : isFlowIndicator c = false) : s.track kind = s := by
  revert h
  fun_cases lexeme s c rest
  case case10 =>
    exact absurd (isFlowIndicator_of_bracket (Or.inl ‹_›)) (Bool.eq_false_iff.mp hc)
  case case11 =>
    exact absurd (isFlowIndicator_of_bracket (Or.inr ‹_›)) (Bool.eq_false_iff.mp hc)
  case case16 =>
    intro h
    obtain ⟨m, -, hfound⟩ := exists_of_quotedScalar h
    rw [(Lexeme.token.inj hfound).1]
    rfl
  all_goals
    intro h
    cases h <;> rfl

theorem after_eq_past (h : lexeme s c rest = .ok found) (hc : isFlowIndicator c = false)
    {taken : Text} (htaken : ∀ d ∈ taken, isBreak d = false) (left : Text) :
    s.after found taken left = s.past taken := by
  have hadvance : s.advance taken left = s.past taken := by
    rw [State.advance, lastLine?_of_flat htaken]
    rfl
  cases found with
  | layout n => exact hadvance
  | token kind n => rw [State.after, track_eq h hc, hadvance]

/-! ## Closing a gap -/

/-- Where an offset is after `gap` bytes in front of `edge` were taken away. -/
def closeGap (edge gap offset : Nat) : Nat := if offset < edge then offset else offset - gap

section

variable {edge gap : Nat}

theorem closeGap_add (hgap : gap ≤ edge) {offset : Nat} (h : edge ≤ offset) (n : Nat) :
    closeGap edge gap (offset + n) = closeGap edge gap offset + n := by
  rw [closeGap, closeGap, if_neg (by omega), if_neg (by omega)]
  omega

/-- A state behind a gap, on a line that begins before the gap or behind it. -/
structure Behind (edge gap : Nat) (s : State) : Prop where
  pos : edge ≤ s.pos
  line : s.lineStart + gap < edge ∨ edge ≤ s.lineStart

theorem Behind.atLineStart (hgap : gap ≤ edge) (h : Behind edge gap s) :
    (s.mapOffsets (closeGap edge gap)).atLineStart = s.atLineStart := by
  have hpos := h.pos
  rw [Bool.eq_iff_iff, State.atLineStart, State.atLineStart, beq_iff_eq, beq_iff_eq]
  show closeGap edge gap s.pos = closeGap edge gap s.lineStart ↔ _
  unfold closeGap
  rw [if_neg (by omega)]
  rcases h.line with hline | hline
  · rw [if_pos (by omega)]
    omega
  · rw [if_neg (by omega)]
    omega

theorem Behind.after (h : Behind edge gap s) (found : Lexeme) (taken left : Text) :
    Behind edge gap (s.after found taken left) := by
  have hadvance : ∀ s : State, Behind edge gap s → Behind edge gap (s.advance taken left) := by
    intro s h
    have hpos := h.pos
    unfold State.advance
    cases lastLine? taken with
    | none => exact ⟨Nat.le_trans hpos (Nat.le_add_right _ _), h.line⟩
    | some cut =>
      exact ⟨Nat.le_trans hpos (Nat.le_add_right _ _), Or.inr (Nat.le_trans hpos (Nat.le_add_right _ _))⟩
  cases found with
  | layout n => exact hadvance s h
  | token kind n =>
    apply hadvance
    exact ⟨by rw [track_pos]; exact h.pos, by rw [track_lineStart]; exact h.line⟩

/-- **A scan behind a gap goes on as before** when the gap is closed. -/
theorem run_closeGap (hgap : gap ≤ edge) (h : Behind edge gap s) (text : Text) :
    run (s.mapOffsets (closeGap edge gap)) text = (run s text).mapOffsets (closeGap edge gap) := by
  have hlock : Lockstep (closeGap edge gap) fun s text s' text' =>
      Behind edge gap s ∧ s' = s.mapOffsets (closeGap edge gap) ∧ text' = text :=
    { state := fun h => h.2.1
      stop := fun h => h.2.2
      fault := by
        rintro s s' c rest text' fault ⟨h, rfl, rfl⟩ hfault
        exact ⟨c, rest, rfl, by rw [lexeme_mapOffsets (h.atLineStart hgap), hfault]⟩
      step := by
        rintro s s' c rest text' found ⟨h, rfl, rfl⟩ hfound
        refine ⟨c, rest, found, rfl, ?_, rfl, h.after found _ _, ?_, rfl⟩
        · rw [lexeme_mapOffsets (h.atLineStart hgap), hfound]
        · exact State.mapOffsets_after (fun w => closeGap_add hgap h.pos w) found _ _ }
  exact hlock.run ⟨h, rfl, rfl⟩

end

/-- Closing a gap that some text leaves behind a state. -/
theorem past_closeGap (hline : s.lineStart < s.pos) (hflow : ∀ entry ∈ s.flow, entry.2 < s.pos)
    (gap taken : Text) :
    ((s.past gap).past taken).mapOffsets (closeGap (s.pos + width gap) (width gap)) = s.past taken := by
  have hbefore : ∀ offset < s.pos, closeGap (s.pos + width gap) (width gap) offset = offset := by
    intro offset hoffset
    exact if_pos (Nat.lt_add_right _ hoffset)
  have hpos : closeGap (s.pos + width gap) (width gap) (s.pos + width gap + width taken) =
      s.pos + width taken := by
    rw [closeGap, if_neg (by omega)]
    omega
  have hmap : (((s.past gap).past taken).mapOffsets
      (closeGap (s.pos + width gap) (width gap))).flow = s.flow := by
    refine (List.map_congr_left (g := id) ?_).trans (List.map_id _)
    intro entry hentry
    exact Prod.ext rfl (hbefore _ (hflow entry hentry))
  apply State.mk.injEq .. |>.mpr
  exact ⟨hpos, hbefore _ hline, rfl, hmap⟩

/-- **A scan that finds a gap and one that finds none** go on in the same way behind it. -/
theorem run_past_gap (hline : s.lineStart < s.pos) (hflow : ∀ entry ∈ s.flow, entry.2 < s.pos)
    (gap taken left : Text) :
    run (s.past taken) left =
      (run ((s.past gap).past taken) left).mapOffsets (closeGap (s.pos + width gap) (width gap)) := by
  have hbehind : Behind (s.pos + width gap) (width gap) ((s.past gap).past taken) :=
    ⟨Nat.le_add_right _ _, Or.inl (Nat.add_lt_add_right hline _)⟩
  rw [← run_closeGap (Nat.le_add_left _ _) hbehind, past_closeGap hline hflow]

end Scanner

end YamlStyle
