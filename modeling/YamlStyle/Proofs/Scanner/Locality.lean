import YamlStyle.Proofs.Line.Segmentation
import YamlStyle.Proofs.Scanner.BlockLines
import YamlStyle.Proofs.Scanner.Plain

/-!
# What a step leaves alone

A step may look further than it reaches: a plain scalar looks for what stops it, a block scalar for the
line that ends its body, a document marker for what separates it. None of them looks past a **quote**. A
quote is no layout, so that a stretch of blanks and a line of spaces end there at the latest, and it
stops no plain scalar, so that one that comes to it takes it along.

So a step that leaves a quote alone is the same whatever stands behind the quote (`lexeme_congr`), and so
is everything that a scan does until it comes there (`Reaches.congr`).
-/

set_option autoImplicit false

namespace YamlStyle

variable {front back : Text} {e : Char}

/-! ## Stretches -/

theorem takeWhile_congr {p : Char → Bool}
    (h : ((front ++ e :: back).takeWhile p).length ≤ front.length) (back' : Text) :
    (front ++ e :: back').takeWhile p = (front ++ e :: back).takeWhile p := by
  induction front with
  | nil =>
    have he : p e = false := by
      rw [← Bool.not_eq_true]
      intro he
      rw [List.nil_append, List.takeWhile_cons_of_pos he] at h
      exact absurd h (by simp)
    simp [he]
  | cons c front ih =>
    rw [List.cons_append, List.cons_append]
    by_cases hc : p c = true
    · rw [List.cons_append, List.takeWhile_cons_of_pos hc] at h
      rw [List.takeWhile_cons_of_pos hc, List.takeWhile_cons_of_pos hc, ih (Nat.le_of_succ_le_succ h)]
    · rw [List.takeWhile_cons_of_neg hc, List.takeWhile_cons_of_neg hc]

theorem leadingSpaces_congr (he : e ≠ ' ') (front back back' : Text) :
    leadingSpaces (front ++ e :: back') = leadingSpaces (front ++ e :: back) := by
  have hle : ((front ++ e :: back).takeWhile (· == ' ')).length ≤ front.length := by
    induction front with
    | nil => simp [he]
    | cons c front ih =>
      rw [List.cons_append, List.takeWhile_cons]
      split
      · exact Nat.succ_le_succ ih
      · exact Nat.zero_le _
  rw [leadingSpaces, takeWhile_congr hle, leadingSpaces]

/-- The first line of a text that has an ending in front of a character that is no break. -/
theorem line_of_ending (h : lineEnding front ≠ .none) (he : isBreak e = false) (back : Text) :
    lineContent (front ++ e :: back) = lineContent front ∧
      lineEnding (front ++ e :: back) = lineEnding front ∧
      lineBelow (front ++ e :: back) = lineBelow front ++ e :: back := by
  have hbare : lineEnding front = .cr → (lineBelow front ++ e :: back).head? ≠ some '\n' := by
    intro hcr
    cases hbelow : lineBelow front with
    | nil =>
      intro hhead
      rw [Option.some.inj hhead] at he
      exact absurd he (by decide)
    | cons c below =>
      have hhead := head?_lineBelow_of_cr hcr
      rwa [hbelow] at hhead
  have hdivision := line_division (fun c (hc : c ∈ lineContent front) => isBreak_of_mem_lineContent hc)
    (fun hnone => absurd hnone h) hbare
  rw [← List.append_assoc (lineEnding front).text, ← List.append_assoc (lineContent front),
    line_append] at hdivision
  exact hdivision

theorem flat_of_no_ending (h : lineEnding front = .none) : ∀ c ∈ front, isBreak c = false := by
  have htext := line_append front
  rw [h, lineBelow_of_no_ending h, Ending.text, List.append_nil, List.append_nil] at htext
  intro c hc
  rw [← htext] at hc
  exact isBreak_of_mem_lineContent hc

/-! ## Quotes -/

namespace Quote

theorem isBlank_char (quote : Quote) : isBlank quote.char = false := by
  cases quote <;> decide

theorem char_ne_space (quote : Quote) : quote.char ≠ ' ' := by
  cases quote <;> decide

theorem char_ne_mark (quote : Quote) {mark : Char} (h : mark ∈ Scanner.markerChars) :
    quote.char ≠ mark := by
  simp only [Scanner.markerChars, List.mem_cons, List.not_mem_nil, or_false] at h
  rcases h with rfl | rfl <;> cases quote <;> decide

theorem stopsPlain_char (quote : Quote) (inFlow : Bool) (previous : Char) (rest : Text) :
    Scanner.stopsPlain inFlow previous quote.char rest = false := by
  cases quote <;> simp [Scanner.stopsPlain, Quote.char, isBreak, Scanner.isFlowIndicator]

end Quote

namespace Scanner

/-! ## Shapes -/

theorem exists_cons_of_succ_le {n : Nat} (h : n + 1 ≤ front.length) :
    ∃ c tail, front = c :: tail ∧ n ≤ tail.length := by
  obtain ⟨c, tail, rfl⟩ := List.exists_cons_of_length_pos (Nat.lt_of_lt_of_le (Nat.succ_pos n) h)
  exact ⟨c, tail, rfl, Nat.le_of_succ_le_succ h⟩

theorem singleQuotedLength?_congr {n : Nat} (h : singleQuotedLength? (front ++ e :: back) = some n)
    (hn : n ≤ front.length) (back' : Text) : singleQuotedLength? (front ++ e :: back') = some n := by
  generalize htext : front ++ e :: back = text at h
  fun_induction singleQuotedLength? text generalizing front n with
  | case1 => exact absurd h (by simp)
  | case2 rest ih =>
    obtain ⟨m, hm, rfl⟩ := Option.map_eq_some_iff.mp h
    obtain ⟨c, tail, rfl, hmore⟩ := exists_cons_of_succ_le hn
    obtain ⟨d, front, rfl, hle⟩ := exists_cons_of_succ_le hmore
    obtain ⟨rfl, htail⟩ := List.cons.inj htext
    obtain ⟨rfl, hrest⟩ := List.cons.inj htail
    rw [List.cons_append, List.cons_append, singleQuotedLength?, ih hle hrest hm]
    rfl
  | case3 rest hne =>
    obtain rfl := Option.some.inj h
    obtain ⟨c, front, rfl, -⟩ := exists_cons_of_succ_le hn
    obtain ⟨rfl, hrest⟩ := List.cons.inj htext
    -- Whether the quote is doubled shows in the next character.
    apply singleQuotedLength?_closing
    intro hhead
    cases front with
    | nil =>
      obtain rfl := Option.some.inj hhead
      exact hne back hrest.symm
    | cons d front =>
      obtain rfl := Option.some.inj hhead
      exact hne _ hrest.symm
  | case4 c rest h₁ h₂ ih =>
    obtain ⟨m, hm, rfl⟩ := Option.map_eq_some_iff.mp h
    obtain ⟨d, front, rfl, hle⟩ := exists_cons_of_succ_le hn
    obtain ⟨rfl, hrest⟩ := List.cons.inj htext
    rw [List.cons_append, singleQuotedLength?_other (fun hq => h₂ hq), ih hle hrest hm]
    rfl

theorem doubleQuotedLength?_congr {n : Nat} (h : doubleQuotedLength? (front ++ e :: back) = some n)
    (hn : n ≤ front.length) (back' : Text) : doubleQuotedLength? (front ++ e :: back') = some n := by
  generalize htext : front ++ e :: back = text at h
  fun_induction doubleQuotedLength? text generalizing front n with
  | case1 => exact absurd h (by simp)
  | case2 => exact absurd h (by simp)
  | case3 d rest ih =>
    obtain ⟨m, hm, rfl⟩ := Option.map_eq_some_iff.mp h
    obtain ⟨c, tail, rfl, hmore⟩ := exists_cons_of_succ_le hn
    obtain ⟨c', front, rfl, hle⟩ := exists_cons_of_succ_le hmore
    obtain ⟨rfl, htail⟩ := List.cons.inj htext
    obtain ⟨rfl, hrest⟩ := List.cons.inj htail
    rw [List.cons_append, List.cons_append, doubleQuotedLength?, ih hle hrest hm]
    rfl
  | case4 rest =>
    obtain rfl := Option.some.inj h
    obtain ⟨c, front, rfl, -⟩ := exists_cons_of_succ_le hn
    obtain ⟨rfl, -⟩ := List.cons.inj htext
    rw [List.cons_append, doubleQuotedLength?]
  | case5 c rest h₁ h₂ h₃ ih =>
    obtain ⟨m, hm, rfl⟩ := Option.map_eq_some_iff.mp h
    obtain ⟨d, front, rfl, hle⟩ := exists_cons_of_succ_le hn
    obtain ⟨rfl, hrest⟩ := List.cons.inj htext
    rw [List.cons_append, doubleQuotedLength?_other (ne_escape h₁ h₂) (fun hq => h₃ hq), ih hle hrest hm]
    rfl

theorem quotedLength?_congr {quote : Quote} {n : Nat}
    (h : quotedLength? quote (front ++ e :: back) = some n) (hn : n ≤ front.length) (back' : Text) :
    quotedLength? quote (front ++ e :: back') = some n := by
  cases quote with
  | single => exact singleQuotedLength?_congr h hn back'
  | double => exact doubleQuotedLength?_congr h hn back'

/-- A plain scalar that comes to a character which does not stop it takes the character along. -/
theorem plainLength_congr {inFlow : Bool} {previous : Char} (hblank : isBlank e = false)
    (hgoes : ∀ previous rest, stopsPlain inFlow previous e rest = false)
    (h : plainLength inFlow previous (front ++ e :: back) ≤ front.length) (back' : Text) :
    plainLength inFlow previous (front ++ e :: back') =
      plainLength inFlow previous (front ++ e :: back) := by
  induction front generalizing previous with
  | nil =>
    rw [List.nil_append, plainLength_cons hblank (hgoes _ _)] at h
    exact absurd h (by simp)
  | cons c front ih =>
    have hstops : stopsPlain inFlow previous c (front ++ e :: back') =
        stopsPlain inFlow previous c (front ++ e :: back) := by
      cases front <;> rfl
    rw [List.cons_append, plainLength] at h
    rw [List.cons_append, List.cons_append, plainLength, plainLength, hstops]
    split
    · rfl
    · rename_i hgo
      rw [if_neg hgo] at h
      have hle : plainLength inFlow c (front ++ e :: back) ≤ front.length := by
        cases hcount : plainLength inFlow c (front ++ e :: back) with
        | zero => exact Nat.zero_le _
        | succ n =>
          rw [hcount] at h
          exact Nat.le_of_succ_le_succ h
      rw [ih hle]

/-- A line that is not just spaces is in the body by its indentation alone. -/
theorem bodyFrom_of_flat (hflat : ∀ c ∈ front, isBreak c = false) (hbreak : isBreak e = false)
    (hspace : e ≠ ' ') (indent pending : Nat) (back : Text) :
    if indent < leadingSpaces (front ++ e :: back)
      then pending + front.length < bodyFrom indent pending (front ++ e :: back)
      else bodyFrom indent pending (front ++ e :: back) = 0 := by
  have hcontent : lineContent (front ++ e :: back) = front ++ e :: lineContent back := by
    have hline : ∀ c ∈ front ++ [e], isBreak c = false := by
      intro c hc
      rcases List.mem_append.mp hc with hc | hc
      · exact hflat c hc
      · rwa [List.mem_singleton.mp hc]
    rw [List.append_cons, (line_of_flat hline back).1, ← List.append_cons]
  have hhollow : hollowFirst (front ++ e :: back) = false := by
    rw [← Bool.not_eq_true, hollowFirst, beq_iff_eq, leadingSpaces_eq_length_iff, hcontent]
    simp [hspace]
  rw [bodyFrom_of_ne_nil _ _ (by simp), hhollow, leadingSpaces_lineContent, hcontent]
  split
  · simp only [Bool.false_eq_true, if_false, List.length_append, List.length_cons]
    omega
  · simp

theorem bodyFrom_of_ending (h : lineEnding front ≠ .none) (hbreak : isBreak e = false)
    (indent pending : Nat) (back : Text) :
    bodyFrom indent pending (front ++ e :: back) =
      if hollowFirst front then
        match bodyFrom indent (lineEnding front).text.length (lineBelow front ++ e :: back) with
        | 0 => 0
        | n + 1 => pending + (lineContent front).length + (n + 1)
      else if indent < leadingSpaces (lineContent front) then
        pending + (lineContent front).length +
          bodyFrom indent (lineEnding front).text.length (lineBelow front ++ e :: back)
      else 0 := by
  obtain ⟨hcontent, hending, hbelow⟩ := line_of_ending h hbreak back
  rw [bodyFrom_of_ne_nil _ _ (by simp), hollowFirst, hcontent, hending, hbelow]
  rfl

/-- The body of a block scalar is settled by a line in which a character other than a space stands. -/
theorem bodyFrom_congr {indent pending : Nat} (hbreak : isBreak e = false) (hspace : e ≠ ' ')
    (h : bodyFrom indent pending (front ++ e :: back) ≤ pending + front.length) (back' : Text) :
    bodyFrom indent pending (front ++ e :: back') = bodyFrom indent pending (front ++ e :: back) := by
  -- On the line of the character, a body that had the line would take the character along.
  have hlast : ∀ {front : Text} {pending : Nat}, (∀ c ∈ front, isBreak c = false) →
      bodyFrom indent pending (front ++ e :: back) ≤ pending + front.length →
      bodyFrom indent pending (front ++ e :: back') =
        bodyFrom indent pending (front ++ e :: back) := by
    intro front pending hflat h
    have hhere := bodyFrom_of_flat hflat hbreak hspace indent pending back
    have hthere := bodyFrom_of_flat hflat hbreak hspace indent pending back'
    rw [leadingSpaces_congr hspace front back back'] at hthere
    split at hhere
    · exact absurd hhere (Nat.not_lt.mpr h)
    · rename_i hindent
      rw [if_neg hindent] at hthere
      rw [hhere, hthere]
  induction front using line_induction generalizing pending with
  | nil => exact hlast (by simp) h
  | line front hne ih =>
    by_cases hending : lineEnding front = .none
    · exact hlast (flat_of_no_ending hending) h
    · have hlength := congrArg List.length (line_append front)
      simp only [List.length_append] at hlength
      rw [bodyFrom_of_ending hending hbreak] at h
      rw [bodyFrom_of_ending hending hbreak, bodyFrom_of_ending hending hbreak]
      split
      · rename_i hhollow
        rw [if_pos hhollow] at h
        rw [ih]
        cases hbody : bodyFrom indent (lineEnding front).text.length (lineBelow front ++ e :: back) with
        | zero => exact Nat.zero_le _
        | succ n =>
          rw [hbody] at h
          simp only at h
          omega
      · rename_i hhollow
        rw [if_neg hhollow] at h
        split
        · rename_i hindent
          rw [if_pos hindent] at h
          rw [ih]
          omega
        · rfl

theorem blockLength_congr {indent : Nat} (hbreak : isBreak e = false) (hspace : e ≠ ' ')
    (h : blockLength indent (front ++ e :: back) ≤ front.length) (back' : Text) :
    blockLength indent (front ++ e :: back') = blockLength indent (front ++ e :: back) := by
  rw [blockLength_eq] at h
  by_cases hending : lineEnding front = .none
  · -- The header would take the character along.
    rw [(line_of_flat (flat_of_no_ending hending) _).1, List.length_append] at h
    have hcontent : lineContent (e :: back) = e :: lineContent back := by simp [lineContent, hbreak]
    rw [hcontent, List.length_cons] at h
    omega
  · obtain ⟨hcontent, hend, hbelow⟩ := line_of_ending hending hbreak back
    obtain ⟨hcontent', hend', hbelow'⟩ := line_of_ending hending hbreak back'
    have hlength := congrArg List.length (line_append front)
    simp only [List.length_append] at hlength
    rw [hcontent, hend, hbelow] at h
    have hle : bodyFrom indent (lineEnding front).text.length (lineBelow front ++ e :: back) ≤
        (lineEnding front).text.length + (lineBelow front).length := by omega
    rw [blockLength_eq, blockLength_eq, hcontent, hend, hbelow, hcontent', hend', hbelow',
      bodyFrom_congr hbreak hspace hle]

theorem isMarker_congr {mark c : Char} (he : e ≠ mark) (front back back' : Text) :
    isMarker mark c (front ++ e :: back') = isMarker mark c (front ++ e :: back) := by
  have hmark : (e == mark) = false := beq_eq_false_iff_ne.mpr he
  rcases front with - | ⟨d, - | ⟨d', - | ⟨d'', front⟩⟩⟩
  · have hnone : ∀ back, isMarker mark c (e :: back) = false := by
      intro back
      cases back <;> simp [isMarker, hmark]
    rw [List.nil_append, List.nil_append, hnone, hnone]
  · simp [isMarker, hmark]
  · rfl
  · rfl

/-! ## A step -/

variable {quote : Quote} {s : State} {c : Char} {found : Lexeme}

theorem shapeAt_congr_quote (s : State) (c : Char) (quote : Quote) (front back back' : Text) :
    shapeAt s c (front ++ quote.char :: back') = shapeAt s c (front ++ quote.char :: back) := by
  apply shapeAt_congr rfl rfl
  · cases front <;> rfl
  · intro inFlow
    cases front <;> rfl
  · intro mark hmark
    exact isMarker_congr (quote.char_ne_mark hmark) front back back'

/-- **A step that leaves a quote alone does not look behind it.** -/
theorem lexeme_congr (h : lexeme s c (front ++ quote.char :: back) = .ok found)
    (hle : found.length ≤ front.length) (back' : Text) :
    lexeme s c (front ++ quote.char :: back') = .ok found := by
  rw [lexeme_eq_read] at h ⊢
  rw [shapeAt_congr_quote s c quote front back back']
  generalize shapeAt s c (front ++ quote.char :: back) = shape at h
  cases shape with
  | blanks =>
    obtain rfl := Except.ok.inj h
    rw [Shape.read, takeWhile_congr hle]
  | ending =>
    cases front <;> exact h
  | line kind =>
    obtain rfl := Except.ok.inj h
    rw [Shape.read, lineLength, lineContent, takeWhile_congr hle]
    rfl
  | name kind =>
    obtain rfl := Except.ok.inj h
    rw [Shape.read, nameLength, takeWhile_congr hle]
    rfl
  | quoted quote =>
    obtain ⟨n, hn, rfl⟩ := exists_of_quotedScalar h
    rw [Shape.read, quotedScalar, quotedLength?_congr hn hle]
  | block =>
    obtain rfl := Except.ok.inj h
    rw [Shape.read, blockLength_congr quote.isBreak_char quote.char_ne_space hle]
  | plain =>
    obtain rfl := Except.ok.inj h
    rw [Shape.read, plainLength_congr quote.isBlank_char (quote.stopsPlain_char s.inFlow) hle]
  | marker kind | indicator kind | closing bracket => exact h

theorem State.after_congr (he : e ≠ ' ') (s : State) (found : Lexeme) (taken front back back' : Text) :
    s.after found taken (front ++ e :: back') = s.after found taken (front ++ e :: back) := by
  have hadvance : ∀ s : State,
      s.advance taken (front ++ e :: back') = s.advance taken (front ++ e :: back) := by
    intro s
    unfold State.advance
    cases lastLine? taken with
    | none => rfl
    | some cut =>
      obtain ⟨above, last⟩ := cut
      simp only
      rw [← List.append_assoc, ← List.append_assoc, leadingSpaces_congr he _ back back']
  cases found with
  | layout n => exact hadvance s
  | token kind n => exact hadvance (s.track kind)

/-- **What stands behind a quote does not matter** until a scan comes to it. -/
theorem Reaches.congr {whole left : Text} {tokens : List RawToken} {here : State}
    (h : Reaches s (whole ++ quote.char :: back) tokens here (left ++ quote.char :: back))
    (back' : Text) :
    Reaches s (whole ++ quote.char :: back') tokens here (left ++ quote.char :: back') := by
  generalize hleft : left ++ quote.char :: back = text at h
  induction h generalizing left with
  | start =>
    rw [List.append_cancel_right hleft]
    exact .start
  | @step tokens here c rest found _ hfound ih =>
    -- What is left after the step was there before it, with what the step took in front.
    have hle : found.length ≤ rest.length := by
      have hlength := congrArg List.length hleft
      simp only [List.length_append, List.length_cons, List.length_drop] at hlength
      omega
    have hrest : ∀ back, (rest.take found.length ++ left) ++ quote.char :: back =
        rest.take found.length ++ (left ++ quote.char :: back) := fun _ => List.append_assoc ..
    have hwhole : rest = (rest.take found.length ++ left) ++ quote.char :: back := by
      rw [hrest, hleft, List.take_append_drop]
    have htake : ∀ back : Text, (rest.take found.length ++ (left ++ back)).take found.length =
        rest.take found.length := fun _ => List.take_left' (List.length_take_of_le hle)
    have hdrop : ∀ back : Text, (rest.take found.length ++ (left ++ back)).drop found.length =
        left ++ back := fun _ => List.drop_left' (List.length_take_of_le hle)
    have hhere := @ih (c :: (rest.take found.length ++ left)) (congrArg (c :: ·) hwhole.symm)
    rw [hwhole] at hfound
    have hfound' := lexeme_congr hfound (by simp [hle]) back'
    rw [List.cons_append] at hhere
    have hstep := hhere.step hfound'
    rw [hrest, htake, hdrop, State.after_congr quote.char_ne_space _ _ _ _ back, hleft] at hstep
    exact hstep

end Scanner

end YamlStyle
