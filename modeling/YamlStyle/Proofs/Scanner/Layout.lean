import YamlStyle.Proofs.Scanner.Tiling

/-!
# Reading layout

A step of the scanner takes all blanks that stand together, and it takes a CR together with the LF
behind it. It makes no difference: taken one by one the same characters lead to the same state
(`run_layout_cons`). So a stretch of layout is passed over character by character, whatever is behind
it, and leaves no trace but the position.
-/

set_option autoImplicit false

namespace YamlStyle

namespace Scanner

variable {s : State} {c : Char} {rest : Text}

theorem run_of_layout {n : Nat} (h : lexeme s c rest = .ok (.layout n)) :
    run s (c :: rest) = run (s.advance (c :: rest.take n) (rest.drop n)) (rest.drop n) := by
  rw [run, h]
  rfl

theorem exists_lexeme_of_isLayout (s : State) (rest : Text) (h : isLayout c = true) :
    ∃ n, lexeme s c rest = .ok (.layout n) := by
  rcases Bool.or_eq_true _ _ |>.mp h with hc | hc
  · exact ⟨_, lexeme_of_isBlank s rest hc⟩
  · exact ⟨_, lexeme_of_isBreak s rest hc⟩

theorem lastLine?_append_eq (front back : Text) :
    lastLine? (front ++ back) =
      match lastLine? back with
      | some (inner, last) => some (front ++ inner, last)
      | none => (lastLine? front).map fun (inner, last) => (inner, last ++ back) := by
  induction front with
  | nil =>
    rw [List.nil_append]
    cases lastLine? back <;> rfl
  | cons c front ih =>
    rw [List.cons_append, lastLine?, ih, lastLine?]
    cases lastLine? back with
    | some cut => rfl
    | none =>
      cases lastLine? front with
      | some cut => rfl
      | none => by_cases hc : isBreak c = true <;> simp [hc]

/-- Moving past two pieces, one after the other, is moving past both. -/
theorem State.advance_advance (s : State) (front back rest : Text) :
    (s.advance front (back ++ rest)).advance back rest = s.advance (front ++ back) rest := by
  simp only [State.advance, lastLine?_append_eq]
  cases lastLine? back with
  | some cut =>
    cases lastLine? front <;> simp [Nat.add_assoc]
  | none =>
    cases lastLine? front <;> simp [Nat.add_assoc]

/-- Layout that is read along with a character would also be read by itself. -/
theorem exists_lexeme_of_layout_succ {n : Nat} (h : lexeme s c rest = .ok (.layout (n + 1)))
    (s' : State) : ∃ d tail, rest = d :: tail ∧ lexeme s' d tail = .ok (.layout n) := by
  have hc := isLayout_of_lexeme h c List.mem_cons_self
  rcases Bool.or_eq_true _ _ |>.mp hc with hblank | hbreak
  · rw [lexeme_of_isBlank s rest hblank] at h
    have hn := Lexeme.layout.inj (Except.ok.inj h)
    cases rest with
    | nil => exact absurd hn (by simp)
    | cons d tail =>
      by_cases hd : isBlank d = true
      · rw [List.takeWhile_cons_of_pos hd] at hn
        refine ⟨d, tail, rfl, ?_⟩
        rw [lexeme_of_isBlank s' tail hd, Nat.succ.inj hn]
      · rw [List.takeWhile_cons_of_neg hd] at hn
        exact absurd hn (by simp)
  · rw [lexeme_of_isBreak s rest hbreak] at h
    split at h
    · -- An LF behind a CR is a line ending on its own.
      rename_i hcrlf
      have hn : 0 = n := Nat.succ.inj (Lexeme.layout.inj (Except.ok.inj h))
      have hlf : isBreak '\n' = true := by decide
      obtain ⟨tail, rfl⟩ :=
        List.head?_eq_some_iff.mp (beq_iff_eq.mp (Bool.and_eq_true _ _ |>.mp hcrlf).2)
      refine ⟨'\n', tail, rfl, ?_⟩
      rw [lexeme_of_isBreak s' tail hlf, ← hn]
      rfl
    · exact absurd (Lexeme.layout.inj (Except.ok.inj h)) (by simp)

/-- **Layout is read character by character.** -/
theorem run_layout_cons (h : isLayout c = true) (rest : Text) :
    run s (c :: rest) = run (s.advance [c] rest) rest := by
  obtain ⟨n, hn⟩ := exists_lexeme_of_isLayout s rest h
  cases n with
  | zero => exact run_of_layout hn
  | succ n =>
    obtain ⟨d, tail, rfl, hd⟩ := exists_lexeme_of_layout_succ hn (s.advance [c] rest)
    rw [run_of_layout hn, run_of_layout hd, List.take_succ_cons, List.drop_succ_cons]
    have hadvance := s.advance_advance [c] (d :: tail.take n) (tail.drop n)
    rw [List.cons_append, List.take_append_drop] at hadvance
    rw [hadvance]
    rfl

/-- A stretch of layout is passed over, whatever is behind it. -/
theorem exists_run_layout_append {layout : Text} (h : ∀ c ∈ layout, isLayout c = true) (s : State)
    (rest : Text) : ∃ next : State, next.pos = s.pos + width layout ∧ next.flow = s.flow ∧
      run s (layout ++ rest) = run next rest := by
  induction layout generalizing s with
  | nil => exact ⟨s, rfl, rfl, rfl⟩
  | cons c layout ih =>
    obtain ⟨next, hpos, hflow, hrun⟩ :=
      ih (fun d hd => h d (List.mem_cons_of_mem c hd)) (s.advance [c] (layout ++ rest))
    refine ⟨next, ?_, ?_, ?_⟩
    · rw [hpos, advance_pos, Nat.add_assoc, ← width_append]
      rfl
    · rw [hflow, advance_flow]
    · rw [List.cons_append, run_layout_cons (h c List.mem_cons_self), hrun]

theorem endError_congr {s' : State} (h : s'.flow = s.flow) : endError s' = endError s := by
  rw [endError, h, endError]

/-- There is no token in a stretch of layout, and nothing is opened or closed there. -/
theorem run_layout {text : Text} (h : ∀ c ∈ text, isLayout c = true) :
    run s text = ⟨[], endError s⟩ := by
  obtain ⟨next, -, hflow, hrun⟩ := exists_run_layout_append h s []
  rw [List.append_nil] at hrun
  rw [hrun, run, endError_congr hflow]

end Scanner

end YamlStyle
