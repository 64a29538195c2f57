import YamlStyle.Proofs.Cursor.Rounds
import YamlStyle.Proofs.Line.Starts

/-!
# What holds where a round begins

A cursor is **sound** if it stands between two characters of the text, on the line that the index has for
its offset, and remembers those opening brackets among its tokens that are not matched. Every round begins
at a sound cursor, succeeds and gets further, and one of them ends with the scan of the text
(`yamlScanner_loop`).

The start of the line is the delicate part. The index does not start a line between CR and LF. A cursor
would, had it ever stopped there, but a line ending is taken whole (`not_torn_of_lexeme`), and a token that
runs over several lines ends behind some character of its last one.
-/

set_option autoImplicit false

namespace YamlStyle

namespace Scanner

variable {text left : Text} {tokens : List RawToken} {s here : State}

/-! ## Lines -/

/-- Layout is a stretch of blanks or a line ending. -/
theorem layout_cases {c : Char} {rest : Text} {n : Nat} (h : lexeme s c rest = .ok (.layout n)) :
    (isBlank c = true ∧ n = (rest.takeWhile isBlank).length) ∨
      (isBreak c = true ∧ n = if c == '\r' && rest.head? == some '\n' then 1 else 0) := by
  have hlayout := isLayout_of_lexeme h c List.mem_cons_self
  rcases (Bool.or_eq_true _ _).mp hlayout with hc | hc
  · rw [lexeme_of_isBlank s rest hc] at h
    exact Or.inl ⟨hc, (Lexeme.layout.inj (Except.ok.inj h)).symm⟩
  · rw [lexeme_of_isBreak s rest hc] at h
    exact Or.inr ⟨hc, (Lexeme.layout.inj (Except.ok.inj h)).symm⟩

/-- No step stops between CR and LF. -/
theorem not_torn_of_lexeme {c : Char} {rest : Text} {found : Lexeme} (h : lexeme s c rest = .ok found) :
    ¬ Torn (c :: rest.take found.length) (rest.drop found.length) := by
  rintro ⟨hlast, hhead⟩
  cases found with
  | token kind n =>
    -- A token does not end in a break.
    obtain ⟨body, d, hpiece, hd, -⟩ := endsOnLine_of_lexeme h
    rw [Lexeme.length, hpiece, List.getLast?_append] at hlast
    obtain rfl : d = '\r' := by simpa using hlast
    exact absurd hd (by decide)
  | layout n =>
    rcases layout_cases h with ⟨hc, rfl⟩ | ⟨hc, rfl⟩
    · -- There is no break among blanks.
      rw [Lexeme.length, take_length_takeWhile] at hlast
      rcases List.mem_cons.mp (List.mem_of_getLast? hlast) with rfl | hmem
      · exact absurd hc (by decide)
      · exact absurd (List.mem_takeWhile_imp hmem) (by decide)
    · -- LF behind CR is taken along.
      rw [Lexeme.length] at hlast hhead
      split at hlast
      · rename_i hcrlf
        obtain ⟨hcr, hlf⟩ : c = '\r' ∧ rest.head? = some '\n' := by simpa using hcrlf
        obtain ⟨tail, rfl⟩ := List.head?_eq_some_iff.mp hlf
        exact absurd hlast (by simp)
      · rename_i hcrlf
        rw [if_neg hcrlf] at hhead
        obtain rfl : c = '\r' := by simpa using hlast
        exact hcrlf (by simpa using hhead)

theorem OnLine.advance_whole {whole above line taken : Text}
    (h : OnLine whole s above line (taken ++ left)) (hwhole : ¬ Torn above (line ++ (taken ++ left)))
    (htaken : ¬ Torn taken left) :
    ∃ above line, OnLine whole (s.advance taken left) above line left ∧ ¬ Torn above (line ++ left) := by
  cases hlast : lastLine? taken with
  | none =>
    refine ⟨_, _, h.advance_of_none hlast, ?_⟩
    rwa [List.append_assoc]
  | some cut =>
    obtain ⟨front, last⟩ := cut
    obtain ⟨hfront, hflat⟩ := of_lastLine?_some hlast
    refine ⟨_, _, h.advance_of_some hlast, ?_⟩
    rintro ⟨hcr, hlf⟩
    cases last with
    | nil =>
      apply htaken
      rw [lastLine?_append hlast, List.append_nil]
      rw [List.getLast?_append_of_ne_nil _ hfront.ne_nil] at hcr
      exact ⟨hcr, hlf⟩
    | cons d last =>
      obtain rfl : d = '\n' := by simpa using hlf
      exact absurd (hflat '\n' List.mem_cons_self) (by decide)

/-- **The scanner is always on a line of the index.** -/
theorem Reaches.exists_whole (h : Reaches (.initial text) text tokens here left) :
    ∃ above line, OnLine text here above line left ∧ ¬ Torn above (line ++ left) := by
  induction h with
  | start => exact ⟨[], [], ⟨⟨rfl, rfl, rfl⟩, Or.inl rfl, by simp⟩, by simp [Torn]⟩
  | @step tokens here c rest found _ hfound ih =>
    obtain ⟨above, line, honline, hwhole⟩ := ih
    have htorn := not_torn_of_lexeme hfound
    rw [← List.take_append_drop found.length rest, ← List.cons_append] at honline hwhole
    cases found with
    | layout n => exact honline.advance_whole hwhole htorn
    | token kind n => exact (honline.track kind).advance_whole hwhole htorn

/-! ## Lengths -/

theorem bodyFrom_le (indent pending : Nat) (text : Text) :
    bodyFrom indent pending text ≤ pending + text.length := by
  induction text using line_induction generalizing pending with
  | nil => simp
  | line text hne ih =>
    have hbelow := ih (lineEnding text).text.length
    have hlength := congrArg List.length (line_append text)
    simp only [List.length_append] at hlength
    rw [bodyFrom_of_ne_nil _ _ hne]
    split
    · split
      · exact Nat.zero_le _
      · rename_i n hn
        rw [hn] at hbelow
        show pending + (lineContent text).length + (n + 1) ≤ _
        omega
    · split <;> omega

theorem blockLength_le (indent : Nat) (rest : Text) : blockLength indent rest ≤ rest.length := by
  have hbody := bodyFrom_le indent (lineEnding rest).text.length (lineBelow rest)
  have hlength := congrArg List.length (line_append rest)
  simp only [List.length_append] at hlength
  rw [blockLength_eq]
  omega

/-- No step counts characters that are not there. -/
theorem length_le_of_lexeme {c : Char} {rest : Text} {found : Lexeme} (h : lexeme s c rest = .ok found) :
    found.length ≤ rest.length := by
  have hcontent : (lineContent rest).length ≤ rest.length := (List.takeWhile_prefix _).length_le
  cases found with
  | layout n =>
    rcases layout_cases h with ⟨-, rfl⟩ | ⟨-, rfl⟩
    · exact (List.takeWhile_prefix _).length_le
    · cases rest with
      | nil => simp [Lexeme.length]
      | cons d rest =>
        rw [Lexeme.length]
        split <;> simp
  | token kind n =>
    rcases le_lineContent_of_lexeme h with hle | ⟨-, quote, rfl⟩ | ⟨-, rfl⟩
    · exact Nat.le_trans hle hcontent
    · rw [lexeme_of_quote] at h
      obtain ⟨m, hm, hfound⟩ := exists_of_quotedScalar h
      obtain ⟨-, rfl⟩ := Lexeme.token.inj hfound
      exact quotedLength?_le hm
    · exact blockLength_le s.indent rest

/-! ## The invariant -/

/-- What holds of a cursor over the bytes of a text where a round begins. -/
structure Cursor.Sound (text : Text) (cursor : Cursor) : Prop where
  lineStart_le : cursor.lineStart ≤ cursor.pos
  pos_le : cursor.pos ≤ width text
  boundary : isBoundary text cursor.pos = true
  /-- The line is the one that the index has. -/
  line : IsGreatest {offset | offset ∈ (Index.ofText text).offsets ∧ offset ≤ cursor.pos} cursor.lineStart
  /-- The open collections are those of the opening tokens that no closing token matches. -/
  flow : ∃ unmatched, cursor.tokens.foldlM settle [] = some unmatched ∧ Mirrors unmatched cursor.flow

theorem Reaches.sound (h : Reaches (.initial text) text tokens here left) :
    (Cursor.ofState tokens here).Sound text := by
  obtain ⟨above, line, honline, hwhole⟩ := h.exists_whole
  have hline := Index.isGreatest_offset honline.ends hwhole honline.flat
  rw [← honline.whole, ← honline.pos, ← honline.lineStart] at hline
  have hboundary : isBoundary text here.pos = true := by
    refine isBoundary_iff.mpr ⟨above ++ line, left, ?_, honline.pos⟩
    rw [List.append_assoc]
    exact honline.whole
  exact ⟨hline.1.2, le_width_of_isBoundary hboundary, hboundary, hline, exists_mirrors h⟩

/-- What the loop of a cursor over the bytes of a text is like. -/
structure Cursor.Loops (text : Text) : Prop where
  sound : ∀ n cursor, Rounds (bytes text) n cursor → cursor.Sound text
  /-- There are no more rounds than bytes. -/
  bounded : ∀ n cursor, Rounds (bytes text) n cursor → n ≤ width text
  /-- Every read of a round finds what it looks for. -/
  succeeds : ∀ n cursor, Rounds (bytes text) n cursor → (cursor.turn? (bytes text)).isSome = true
  progress : ∀ n cursor next, Rounds (bytes text) n cursor →
    cursor.turn? (bytes text) = some (.next next) → cursor.pos < next.pos
  /-- A round is the last one, and its result is the scan of the text. -/
  ends : ∃ n last, Rounds (bytes text) n last ∧ last.turn? (bytes text) = some (.done (yamlScanner text))

/-- What the places of a scan are like, each with the cursor that stands there. -/
structure Steps (text : Text) : Prop where
  sound : ∀ tokens here left, Reaches (.initial text) text tokens here left →
    (Cursor.ofState tokens here).Sound text
  /-- A step counts characters that are there. -/
  counts : ∀ tokens here c rest found, Reaches (.initial text) text tokens here (c :: rest) →
    lexeme here c rest = .ok found → found.length ≤ rest.length
  progress : ∀ tokens here c rest found, Reaches (.initial text) text tokens here (c :: rest) →
    lexeme here c rest = .ok found →
    here.pos < (here.after found (c :: rest.take found.length) (rest.drop found.length)).pos

theorem Cursor.loops (text : Text) : Cursor.Loops text where
  sound := by
    intro n cursor h
    obtain ⟨tokens, here, left, rfl, hreaches, -⟩ := h.exists_reaches
    exact hreaches.sound
  bounded := by
    intro n cursor h
    obtain ⟨tokens, here, left, rfl, hreaches, hle⟩ := h.exists_reaches
    exact Nat.le_trans hle hreaches.sound.pos_le
  succeeds := by
    intro n cursor h
    obtain ⟨tokens, here, left, rfl, hreaches, -⟩ := h.exists_reaches
    rcases turn?_cases hreaches with ⟨tokens', next, left', hnext, -⟩ | hdone
    · rw [hnext]
      rfl
    · rw [hdone]
      rfl
  progress := by
    intro n cursor next h hturn
    obtain ⟨tokens, here, left, rfl, hreaches, -⟩ := h.exists_reaches
    rcases turn?_cases hreaches with ⟨tokens', place, left', hnext, -, hlt, -⟩ | hdone
    · obtain rfl := Turn.next.inj (Option.some.inj (hturn.symm.trans hnext))
      exact hlt
    · exact absurd (hturn.symm.trans hdone) (by simp)
  ends := exists_done text

theorem steps (text : Text) : Steps text where
  sound := by
    intro tokens here left h
    exact h.sound
  counts := by
    intro tokens here c rest found _ hfound
    exact length_le_of_lexeme hfound
  progress := by
    intro tokens here c rest found _ _
    rw [after_pos]
    exact Nat.lt_add_of_pos_right (width_pos (by simp))

/-- **The loop of the scanner keeps its invariant**, gets further and ends, whether it goes over bytes and
by offsets or over characters. -/
theorem yamlScanner_loop (text : Text) : Cursor.Loops text ∧ Steps text :=
  ⟨Cursor.loops text, steps text⟩

end Scanner

end YamlStyle
