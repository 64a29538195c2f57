import YamlStyle.Line

/-!
# Texts that end a line

A text that ends in a break shields whoever reads it from what comes after: a reader that stops at
breaks never looks past its end. `EndsLine` is the condition, and the lemmas here say for the tests
and stretches of this library that appending to such a text changes nothing. The one exception is the
last ending itself, where a CR turns into CR LF if an LF follows.
-/

set_option autoImplicit false

namespace YamlStyle

theorem not_space_of_isBreak {c : Char} (h : isBreak c = true) : (c == ' ') = false := by
  simp only [isBreak, Bool.or_eq_true, beq_iff_eq] at h
  rcases h with rfl | rfl <;> rfl

theorem isBreak_of_mem_lineContent {text : Text} {c : Char} (h : c ∈ lineContent text) :
    isBreak c = false := by
  have hnot : (!isBreak c) = true := List.all_eq_true.mp List.all_takeWhile c h
  simpa using hnot

/-- Whether a text ends in a break. -/
def EndsLine (text : Text) : Prop := ∃ front b, text = front ++ [b] ∧ isBreak b = true

namespace EndsLine

variable {text : Text}

theorem ne_nil (h : EndsLine text) : text ≠ [] := by
  obtain ⟨front, b, rfl, -⟩ := h
  simp

/-- What is left of such a text, if anything is, is such a text. -/
theorem of_append (front : Text) {back : Text} (h : EndsLine (front ++ back)) (hne : back ≠ []) :
    EndsLine back := by
  obtain ⟨text, b, heq, hb⟩ := h
  obtain ⟨init, last, rfl⟩ : ∃ init last, back = init ++ [last] :=
    ⟨back.dropLast, back.getLast hne, (List.dropLast_concat_getLast hne).symm⟩
  rw [← List.append_assoc] at heq
  obtain ⟨-, hlast⟩ := List.append_inj' heq rfl
  exact ⟨init, last, rfl, by rwa [(List.cons.inj hlast).1]⟩

theorem of_cons {c : Char} (h : EndsLine (c :: text)) (hne : text ≠ []) : EndsLine text :=
  of_append [c] h hne

theorem of_drop {n : Nat} (h : EndsLine text) (hne : text.drop n ≠ []) : EndsLine (text.drop n) :=
  of_append (text.take n) (by rwa [List.take_append_drop]) hne

theorem append (h : EndsLine text) (front : Text) : EndsLine (front ++ text) := by
  obtain ⟨init, b, rfl, hb⟩ := h
  exact ⟨front ++ init, b, (List.append_assoc ..).symm, hb⟩

theorem exists_break (h : EndsLine text) : ∃ b ∈ text, isBreak b = true := by
  obtain ⟨front, b, rfl, hb⟩ := h
  exact ⟨b, by simp, hb⟩

/-- A single character that ends a line is a break. -/
theorem isBreak_of_singleton {c : Char} (h : EndsLine [c]) : isBreak c = true := by
  obtain ⟨b, hmem, hb⟩ := h.exists_break
  rwa [List.mem_singleton.mp hmem] at hb

/-- A stretch that stops at breaks stops within the text. -/
theorem takeWhile_append (h : EndsLine text) {p : Char → Bool}
    (hp : ∀ c, isBreak c = true → p c = false) (back : Text) :
    (text ++ back).takeWhile p = text.takeWhile p := by
  obtain ⟨front, b, rfl, hb⟩ := h
  induction front with
  | nil => simp [hp b hb]
  | cons c front ih =>
    by_cases hc : p c = true
    · simpa [List.takeWhile_cons, hc] using ih
    · simp [hc]

theorem dropWhile_append (h : EndsLine text) {p : Char → Bool}
    (hp : ∀ c, isBreak c = true → p c = false) (back : Text) :
    (text ++ back).dropWhile p = text.dropWhile p ++ back := by
  obtain ⟨front, b, rfl, hb⟩ := h
  induction front with
  | nil => simp [hp b hb]
  | cons c front ih =>
    by_cases hc : p c = true
    · simpa [List.dropWhile_cons, hc] using ih
    · simp [hc]

theorem lineContent_append (h : EndsLine text) (back : Text) :
    lineContent (text ++ back) = lineContent text :=
  h.takeWhile_append (fun c hc => by simp [hc]) back

theorem lineRest_append (h : EndsLine text) (back : Text) :
    lineRest (text ++ back) = lineRest text ++ back :=
  h.dropWhile_append (fun c hc => by simp [hc]) back

theorem leadingSpaces_append (h : EndsLine text) (back : Text) :
    leadingSpaces (text ++ back) = leadingSpaces text := by
  rw [leadingSpaces, h.takeWhile_append fun c hc => not_space_of_isBreak hc, leadingSpaces]

/-- A stretch that stops at breaks leaves something. -/
theorem length_takeWhile_lt (h : EndsLine text) {p : Char → Bool}
    (hp : ∀ c, isBreak c = true → p c = false) : (text.takeWhile p).length < text.length := by
  have hinit : text.takeWhile p <+: text := List.takeWhile_prefix p
  refine Nat.lt_of_le_of_ne hinit.length_le fun hlength => ?_
  obtain ⟨b, hmem, hb⟩ := h.exists_break
  rw [← hinit.eq_of_length hlength] at hmem
  have hpb : p b = true := List.all_eq_true.mp List.all_takeWhile b hmem
  rw [hp b hb] at hpb
  exact absurd hpb (by simp)

theorem length_lineContent_lt (h : EndsLine text) : (lineContent text).length < text.length :=
  h.length_takeWhile_lt fun c hc => by simp [hc]

end EndsLine

/-! ## Endings -/

theorem isBreak_of_mem_ending {e : Ending} {c : Char} (h : c ∈ e.text) : isBreak c = true := by
  cases e with
  | none => exact absurd h List.not_mem_nil
  | lf | cr =>
    rw [List.mem_singleton.mp h]
    decide
  | crlf =>
    rcases List.mem_cons.mp h with rfl | h
    · decide
    · rw [List.mem_singleton.mp h]
      decide

theorem Ending.endsLine {e : Ending} (h : e ≠ .none) : EndsLine e.text := by
  cases e with
  | none => exact absurd rfl h
  | lf => exact ⟨[], '\n', rfl, by decide⟩
  | crlf => exact ⟨['\r'], '\n', rfl, by decide⟩
  | cr => exact ⟨[], '\r', rfl, by decide⟩

/-- A CR with no LF behind it is an ending by itself. -/
theorem Ending.split_cr {rest : Text} (h : rest.head? ≠ some '\n') :
    Ending.split ('\r' :: rest) = (.cr, rest) := by
  cases rest with
  | nil => rfl
  | cons d rest =>
    have hd : d ≠ '\n' := fun hq => h (by rw [hq]; rfl)
    unfold Ending.split
    split
    · rename_i heq
      exact absurd (List.cons.inj (List.cons.inj heq).2).1 hd
    · rename_i heq
      rw [(List.cons.inj heq).2]
    · rename_i heq
      exact absurd (List.cons.inj heq).1 (by decide)
    · rename_i hno _
      exact absurd rfl (hno _)

theorem Ending.split_of_not_isBreak {c : Char} (h : isBreak c = false) (rest : Text) :
    Ending.split (c :: rest) = (.none, c :: rest) := by
  simp only [isBreak, Bool.or_eq_false_iff, beq_eq_false_iff_ne] at h
  unfold Ending.split
  split
  · rename_i heq
    exact absurd (List.cons.inj heq).1 h.2
  · rename_i heq
    exact absurd (List.cons.inj heq).1 h.2
  · rename_i heq
    exact absurd (List.cons.inj heq).1 h.1
  · rfl

/-- An ending with something behind it is the same whatever is appended; only a CR at the very end
could still become CR LF. -/
theorem Ending.split_append {text : Text} (h : (Ending.split text).2 ≠ []) (back : Text) :
    Ending.split (text ++ back) = ((Ending.split text).1, (Ending.split text).2 ++ back) := by
  cases text with
  | nil => exact absurd rfl h
  | cons c rest =>
    by_cases hc : isBreak c = true
    · simp only [isBreak, Bool.or_eq_true, beq_iff_eq] at hc
      rcases hc with rfl | rfl
      · rfl
      · by_cases hlf : rest.head? = some '\n'
        · obtain ⟨rest, rfl⟩ : ∃ tail, rest = '\n' :: tail := List.head?_eq_some_iff.mp hlf
          rfl
        · rw [split_cr hlf] at h ⊢
          have hlf' : (rest ++ back).head? ≠ some '\n' := by
            cases rest with
            | nil => exact absurd rfl h
            | cons d rest => exact hlf
          rw [List.cons_append, split_cr hlf']
    · rw [Bool.not_eq_true] at hc
      rw [List.cons_append, split_of_not_isBreak hc, split_of_not_isBreak hc, List.cons_append]

end YamlStyle
