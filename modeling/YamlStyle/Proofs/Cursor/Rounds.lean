import YamlStyle.Proofs.Cursor.Lockstep

/-!
# The rounds of a cursor

A round skips blanks and then acts, so that it is one step of the scanner, or two. It begins at a place that
the scan comes through (`Rounds.exists_reaches`), succeeds, and either ends with the scan of the text or
gets further (`turn?_cases`). There are no more rounds than bytes, and the last one is reached
(`exists_done`).
-/

set_option autoImplicit false

namespace YamlStyle

namespace Scanner

namespace Cursor

variable {text left : Text} {tokens : List RawToken} {here : State}

/-- Behind the blanks is a place of the scan, too. -/
theorem exists_past_blanks (h : Reaches (.initial text) text tokens here left) :
    ∃ next left', (ofState tokens here).skipBlanks (bytes text) = ofState tokens next ∧
      Reaches (.initial text) text tokens next left' ∧ here.pos ≤ next.pos ∧
      left'.length ≤ left.length := by
  obtain ⟨front, htext, hpos⟩ := h.exists_front
  have hskip : (ofState tokens here).skipBlanks (bytes (front ++ left)) = _ := skipBlanks_bytes hpos left
  rw [← htext] at hskip
  refine ⟨_, left.dropWhile isBlank, hskip, ?_, ?_, (List.dropWhile_sublist _).length_le⟩
  · cases left with
    | nil => exact h
    | cons c rest =>
      cases hc : isBlank c with
      | false =>
        rw [List.takeWhile_cons_of_neg (by simp [hc]), List.dropWhile_cons_of_neg (by simp [hc])]
        exact h
      | true =>
        have hstep := h.step (lexeme_of_isBlank here rest hc)
        have hdrop : (rest.takeWhile isBlank ++ rest.dropWhile isBlank).drop
            (rest.takeWhile isBlank).length = rest.dropWhile isBlank := List.drop_left
        rw [List.takeWhile_append_dropWhile] at hdrop
        rw [List.takeWhile_cons_of_pos hc, List.dropWhile_cons_of_pos hc, ← take_length_takeWhile, ← hdrop]
        rwa [Lexeme.tokens, List.append_nil] at hstep
  · rw [advance_pos]
    exact Nat.le_add_right _ _

/-- Where a scan reads no more tokens, it has the tokens of the text. -/
theorem scan_eq (h : Reaches (.initial text) text tokens here left) (hnone : (run here left).tokens = []) :
    (⟨tokens, (run here left).error⟩ : Scan) = yamlScanner text := by
  obtain ⟨htokens, herror⟩ := h.run_eq
  rw [hnone, List.append_nil] at htokens
  rw [yamlScanner, ← herror, ← htokens]

/-- **A turn gets further or ends with the scan.** -/
theorem turn?_cases (h : Reaches (.initial text) text tokens here left) :
    (∃ tokens' next left', (ofState tokens here).turn? (bytes text) = some (.next (ofState tokens' next)) ∧
      Reaches (.initial text) text tokens' next left' ∧ here.pos < next.pos ∧
      left'.length < left.length) ∨
      (ofState tokens here).turn? (bytes text) = some (.done (yamlScanner text)) := by
  obtain ⟨place, left', hskip, hplace, hpos, hlength⟩ := exists_past_blanks h
  rw [turn?, hskip]
  cases left' with
  | nil =>
    right
    have hrun : run place [] = ⟨[], endError place⟩ := by rw [run]
    rw [act?_end hplace, ← scan_eq hplace (by rw [hrun]), hrun]
  | cons c rest =>
    rw [act?_eq hplace]
    cases hfound : lexeme place c rest with
    | error fault =>
      right
      have hrun : run place (c :: rest) = ⟨[], some ⟨place.pos, fault⟩⟩ := by rw [run, hfound]
      rw [← scan_eq hplace (by rw [hrun]), hrun]
      rfl
    | ok found =>
      left
      refine ⟨_, _, _, rfl, hplace.step hfound, ?_, ?_⟩
      · have hwidth : 0 < width (c :: rest.take found.length) := width_pos (by simp)
        rw [after_pos]
        omega
      · rw [List.length_drop]
        rw [List.length_cons] at hlength
        omega

theorem Rounds.exists_reaches {n : Nat} {cursor : Cursor} (h : Rounds (bytes text) n cursor) :
    ∃ tokens here left, cursor = ofState tokens here ∧ Reaches (.initial text) text tokens here left ∧
      n ≤ here.pos := by
  induction h with
  | start => exact ⟨[], .initial text, text, rfl, .start, Nat.zero_le _⟩
  | next _ hturn ih =>
    obtain ⟨tokens, here, left, rfl, hplace, hn⟩ := ih
    rcases turn?_cases hplace with ⟨tokens', next, left', hnext, hreaches, hlt, -⟩ | hdone
    · obtain rfl := Turn.next.inj (Option.some.inj (hturn.symm.trans hnext))
      exact ⟨tokens', next, left', rfl, hreaches, Nat.lt_of_le_of_lt hn hlt⟩
    · exact absurd (hturn.symm.trans hdone) (by simp)

theorem exists_done_of_reaches {n : Nat} (hround : Rounds (bytes text) n (ofState tokens here))
    (h : Reaches (.initial text) text tokens here left) :
    ∃ n last, Rounds (bytes text) n last ∧ last.turn? (bytes text) = some (.done (yamlScanner text)) := by
  induction hlength : left.length using Nat.strong_induction_on generalizing n tokens here left with
  | h length ih =>
    rcases turn?_cases h with ⟨tokens', next, left', hnext, hreaches, -, hlt⟩ | hdone
    · exact ih _ (hlength ▸ hlt) (hround.next hnext) hreaches rfl
    · exact ⟨n, _, hround, hdone⟩

/-- **The rounds come to an end**, and there the scan is the one of the text. -/
theorem exists_done (text : Text) :
    ∃ n last, Rounds (bytes text) n last ∧ last.turn? (bytes text) = some (.done (yamlScanner text)) := by
  have hround : Rounds (bytes text) 0 (ofState [] (.initial text)) := .start
  exact exists_done_of_reaches hround .start

end Cursor

end Scanner

end YamlStyle
