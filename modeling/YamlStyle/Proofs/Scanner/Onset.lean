import YamlStyle.Proofs.Scanner.Layout

/-!
# Tokens and faults begin at a character

Layout is read and forgotten. Everything the scanner reports by offset, be it a token, a character at
which nothing can be read or a collection that was left open, begins at a character that is no layout:
an **onset**. In particular no offset of a scan points at a line ending or behind the end of the
document, where `lines` may know no line.

A run carries the offsets of open collections with it and may report one of them at its end, so that
they are part of what a step has to keep.
-/

set_option autoImplicit false

namespace YamlStyle

/-- A byte offset of `text` at which there is a character, and no layout. -/
def Onset (text : Text) (offset : Nat) : Prop :=
  ∃ front c back, text = front ++ c :: back ∧ isLayout c = false ∧ offset = width front

namespace Scanner

/-- What is left to read stands in `text` where the state says, and the open collections were opened at
onsets. -/
structure Carries (text : Text) (s : State) (left : Text) : Prop where
  front : ∃ front, text = front ++ left ∧ s.pos = width front
  flow : ∀ entry ∈ s.flow, Onset text entry.2

namespace Carries

variable {text : Text} {s : State} {c : Char} {rest : Text}

/-- Where something other than layout is read, or nothing can be, there is an onset. -/
theorem onset (h : Carries text s (c :: rest)) (hc : ∀ n, lexeme s c rest ≠ .ok (.layout n)) :
    Onset text s.pos := by
  obtain ⟨front, htext, hpos⟩ := h.front
  refine ⟨front, c, rest, htext, ?_, hpos⟩
  rw [← Bool.not_eq_true]
  intro hlayout
  obtain ⟨n, hn⟩ := exists_lexeme_of_isLayout s rest hlayout
  exact hc n hn

theorem after (h : Carries text s (c :: rest)) {found : Lexeme}
    (hfound : lexeme s c rest = .ok found) :
    Carries text (s.after found (c :: rest.take found.length) (rest.drop found.length))
      (rest.drop found.length) where
  front := by
    obtain ⟨front, htext, hpos⟩ := h.front
    refine ⟨front ++ (c :: rest.take found.length), ?_, ?_⟩
    · rw [htext, List.append_assoc, List.cons_append, List.take_append_drop]
    · rw [after_pos, hpos, width_append]
  flow := by
    intro entry hentry
    cases found with
    | layout n =>
      rw [after_layout_flow] at hentry
      exact h.flow entry hentry
    | token kind n =>
      rw [after_token_flow] at hentry
      rcases mem_track_flow hentry with hold | hnew
      · exact h.flow entry hold
      · rw [hnew]
        refine h.onset fun m hm => ?_
        exact absurd (hfound.symm.trans hm) (by simp)

end Carries

/-- A run reports onsets only. -/
theorem onset_run {text : Text} {s : State} {left : Text} (h : Carries text s left) :
    (∀ t ∈ (run s left).tokens, Onset text t.start) ∧
      ∀ e, (run s left).error = some e → Onset text e.offset := by
  fun_induction run s left with
  | case1 s =>
    refine ⟨fun t ht => absurd ht List.not_mem_nil, ?_⟩
    intro e he
    obtain ⟨entry, hentry, rfl⟩ := Option.map_eq_some_iff.mp he
    exact h.flow entry (List.mem_of_mem_head? hentry)
  | case2 s c rest fault hfault =>
    refine ⟨fun t ht => absurd ht List.not_mem_nil, ?_⟩
    intro e he
    obtain rfl := Option.some.inj he
    refine h.onset fun n hn => ?_
    exact absurd (hfault.symm.trans hn) (by simp)
  | case3 s c rest found hfound next ih =>
    obtain ⟨htokens, herror⟩ := ih (h.after hfound)
    refine ⟨?_, by rwa [consToken_error]⟩
    cases found with
    | layout n => exact htokens
    | token kind n =>
      intro t ht
      rcases List.mem_cons.mp ht with rfl | ht
      · refine h.onset fun m hm => ?_
        exact absurd (hfound.symm.trans hm) (by simp)
      · exact htokens t ht

theorem carries_initial (text : Text) : Carries text (.initial text) text where
  front := ⟨[], rfl, rfl⟩
  flow := fun _ hentry => absurd hentry List.not_mem_nil

end Scanner

/-- **Every token begins at an onset**, and every fault is reported at one. -/
theorem onset_yamlScanner (text : Text) :
    (∀ t ∈ (yamlScanner text).tokens, Onset text t.start) ∧
      ∀ e, (yamlScanner text).error = some e → Onset text e.offset :=
  Scanner.onset_run (Scanner.carries_initial text)

end YamlStyle
