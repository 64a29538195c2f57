import YamlStyle.Proofs.Scanner.Block
import YamlStyle.Proofs.Scanner.Quoted

/-!
# How far a step looks ahead

A step decides by more than the character it stands on: an indicator has to be separated, a document
marker needs two more characters and what is behind them, a single quote may be doubled, a block
scalar searches the lines below. All of it stays **within the line** except quoted scalars, which look
for their quote, and block scalars, which look for the line that finishes them.

So if the text that is left ends a line, and the step succeeds on it, and a block scalar finishes, then
the step is the same whatever is appended (`lexeme_append`), and unless it is the last line ending it
leaves something (`drop_lexeme_ne_nil`).
-/

set_option autoImplicit false

namespace YamlStyle

namespace Scanner

variable {s : State} {c : Char} {rest : Text}

/-! ## The guards -/

theorem isSeparated_append (h : rest ≠ []) (back : Text) :
    isSeparated (rest ++ back) = isSeparated rest := by
  cases rest with
  | nil => exact absurd rfl h
  | cons d rest => rfl

theorem endsKey_append (h : rest ≠ []) (inFlow : Bool) (back : Text) :
    endsKey inFlow (rest ++ back) = endsKey inFlow rest := by
  cases rest with
  | nil => exact absurd rfl h
  | cons d rest => rfl

/-- A break is not part of a document marker, so a marker lies in front of it or there is none. -/
theorem isMarker_append {mark : Char} (hmark : isBreak mark = false) (h : EndsLine rest)
    (back : Text) : isMarker mark c (rest ++ back) = isMarker mark c rest := by
  match rest, h with
  | [], h => exact absurd rfl h.ne_nil
  | [d], h =>
    have hd : (d == mark) = false := by
      refine beq_eq_false_iff_ne.mpr ?_
      rintro rfl
      exact absurd (h.isBreak_of_singleton.symm.trans hmark) (by simp)
    cases back with
    | nil => rfl
    | cons e back => simp [isMarker, hd]
  | [d, e], h =>
    -- Appending completes the three characters only if the break at the end were one of them.
    have he : (e == mark) = false := by
      refine beq_eq_false_iff_ne.mpr ?_
      rintro rfl
      exact absurd ((h.of_cons (by simp)).isBreak_of_singleton.symm.trans hmark) (by simp)
    simp [isMarker, he]
  | d :: e :: f :: rest, _ => rfl

theorem shapeAt_append (s : State) (c : Char) (h : EndsLine rest) (back : Text) :
    shapeAt s c (rest ++ back) = shapeAt s c rest :=
  shapeAt_congr rfl rfl (isSeparated_append h.ne_nil back)
    (fun inFlow => endsKey_append h.ne_nil inFlow back)
    fun _ hmark => isMarker_append (isBreak_of_mem_markerChars hmark) h back

/-- A document marker leaves something of a text that ends a line. -/
theorem drop_of_isMarker {mark : Char} (hmark : isBreak mark = false) (hends : EndsLine rest)
    (h : isMarker mark c rest = true) : rest.drop 2 ≠ [] := by
  match rest, hends, h with
  | [d, e], hends, h =>
    have he : e = mark := by simp [isMarker] at h; exact h.1.2
    have hbreak := (hends.of_cons (by simp)).isBreak_of_singleton
    rw [he, hmark] at hbreak
    exact absurd hbreak (by simp)
  | d :: e :: f :: rest, _, _ => simp

/-! ## The shapes -/

theorem nameLength_append (hends : EndsLine rest) (back : Text) :
    nameLength (rest ++ back) = nameLength rest := by
  rw [nameLength, hends.takeWhile_append (fun d hd => by simp [hd]), nameLength]

theorem stopsPlain_append (inFlow : Bool) (previous d : Char) (h : rest ≠ []) (back : Text) :
    stopsPlain inFlow previous d (rest ++ back) = stopsPlain inFlow previous d rest := by
  rw [stopsPlain, endsKey_append h, stopsPlain]

theorem plainLength_of_isBreak {d : Char} (h : isBreak d = true) (inFlow : Bool) (previous : Char)
    (rest : Text) : plainLength inFlow previous (d :: rest) = 0 := by
  simp [plainLength, stopsPlain, h]

theorem plainLength_append (hends : EndsLine rest) (inFlow : Bool) (previous : Char) (back : Text) :
    plainLength inFlow previous (rest ++ back) = plainLength inFlow previous rest := by
  induction rest generalizing previous with
  | nil => exact absurd rfl hends.ne_nil
  | cons d rest ih =>
    by_cases hnil : rest = []
    · subst hnil
      have hd := hends.isBreak_of_singleton
      rw [List.cons_append, plainLength_of_isBreak hd, plainLength_of_isBreak hd]
    · rw [List.cons_append, plainLength, plainLength, stopsPlain_append inFlow previous d hnil,
        ih (hends.of_cons hnil)]

/-- A plain scalar stays within its line. -/
theorem plainLength_le (inFlow : Bool) (previous : Char) (rest : Text) :
    plainLength inFlow previous rest ≤ (lineContent rest).length := by
  induction rest generalizing previous with
  | nil => exact Nat.le_refl _
  | cons d rest ih =>
    by_cases hd : isBreak d = true
    · rw [plainLength_of_isBreak hd]
      exact Nat.zero_le _
    · have hcontent : (lineContent (d :: rest)).length = (lineContent rest).length + 1 := by
        simp [lineContent, hd]
      have := ih d
      rw [hcontent, plainLength]
      split
      · exact Nat.zero_le _
      · split
        · split <;> omega
        · omega

theorem length_takeWhile_le {p : Char → Bool} (hp : ∀ c, isBreak c = true → p c = false)
    (text : Text) : (text.takeWhile p).length ≤ (lineContent text).length := by
  induction text with
  | nil => exact Nat.le_refl _
  | cons c text ih =>
    cases hc : isBreak c with
    | true => simp [hp c hc]
    | false =>
      rw [List.takeWhile_cons]
      split
      · simpa [lineContent, hc] using ih
      · exact Nat.zero_le _

theorem nameLength_le (rest : Text) : nameLength rest ≤ (lineContent rest).length :=
  length_takeWhile_le (fun d hd => by simp [hd]) rest

theorem two_le_of_isMarker {mark c : Char} (hmark : isBreak mark = false)
    (h : isMarker mark c rest = true) : 2 ≤ (lineContent rest).length := by
  match rest, h with
  | d :: e :: tail, h =>
    simp only [isMarker, Bool.and_eq_true, beq_iff_eq] at h
    obtain ⟨⟨⟨-, rfl⟩, rfl⟩, -⟩ := h
    simp [lineContent, hmark]

theorem blockLength_append {indent : Nat} (hends : EndsLine rest)
    (h : Finishes indent (lineBelow rest)) (back : Text) :
    blockLength indent (rest ++ back) = blockLength indent rest := by
  rw [blockLength_eq, blockLength_eq, hends.lineContent_append, hends.lineEnding_append h.ne_nil,
    hends.lineBelow_append h.ne_nil, h.bodyFrom_append (hends.below h.ne_nil)]

/-! ## A step -/

variable {found : Lexeme}

/-- **What a step reads does not depend on what is appended** to a text that ends a line. -/
theorem lexeme_append (hends : EndsLine rest) (h : lexeme s c rest = .ok found)
    (hblock : shapeAt s c rest = .block → Finishes s.indent (lineBelow rest)) (back : Text) :
    lexeme s c (rest ++ back) = .ok found := by
  rw [lexeme_eq_read] at h ⊢
  rw [shapeAt_append s c hends]
  generalize hshape : shapeAt s c rest = shape at h hblock ⊢
  cases shape with
  | blanks =>
    rw [Shape.read, hends.takeWhile_append fun d hd => not_isBlank_of_isBreak hd]
    exact h
  | ending =>
    obtain ⟨d, tail, rfl⟩ := List.exists_cons_of_ne_nil hends.ne_nil
    exact h
  | line kind =>
    rw [Shape.read, lineLength, hends.lineContent_append]
    exact h
  | name kind =>
    rw [Shape.read, nameLength_append hends]
    exact h
  | quoted quote =>
    obtain ⟨n, hn, rfl⟩ := exists_of_quotedScalar h
    rw [Shape.read, quotedScalar, quotedLength?_append hends hn]
  | block =>
    rw [Shape.read, blockLength_append hends (hblock rfl)]
    exact h
  | plain =>
    rw [Shape.read, plainLength_append hends]
    exact h
  | marker kind | indicator kind | closing bracket => exact h

/-- A step that succeeds on a text that ends a line leaves something, unless it reads the CR LF at the
very end. -/
theorem drop_lexeme_ne_nil (hends : EndsLine rest) (h : lexeme s c rest = .ok found)
    (hblock : shapeAt s c rest = .block → Finishes s.indent (lineBelow rest)) :
    rest.drop found.length ≠ [] ∨ c = '\r' ∧ rest = ['\n'] := by
  rw [lexeme_eq_read] at h
  generalize hshape : shapeAt s c rest = shape at h hblock
  cases shape with
  | blanks =>
    have := hends.length_takeWhile_lt fun d hd => not_isBlank_of_isBreak hd
    rw [← Except.ok.inj h]
    exact Or.inl (List.drop_eq_nil_iff.not.mpr (Nat.not_le_of_lt this))
  | ending =>
    rw [← Except.ok.inj h, Lexeme.length]
    split
    · rename_i hcrlf
      obtain ⟨hc, hhead⟩ := Bool.and_eq_true _ _ |>.mp hcrlf
      obtain ⟨tail, rfl⟩ := List.head?_eq_some_iff.mp (beq_iff_eq.mp hhead)
      cases tail with
      | nil => exact Or.inr ⟨beq_iff_eq.mp hc, rfl⟩
      | cons d tail => exact Or.inl (by simp)
    · exact Or.inl hends.ne_nil
  | line kind =>
    rw [← Except.ok.inj h]
    exact Or.inl (List.drop_eq_nil_iff.not.mpr (Nat.not_le_of_lt hends.length_lineContent_lt))
  | marker kind =>
    obtain ⟨mark, hmark, hmarker⟩ := isMarker_of_shapeAt hshape
    rw [← Except.ok.inj h]
    exact Or.inl (drop_of_isMarker hmark hends hmarker)
  | indicator kind =>
    rw [← Except.ok.inj h]
    exact Or.inl hends.ne_nil
  | closing bracket =>
    rw [eq_of_closeFlow h]
    exact Or.inl hends.ne_nil
  | name kind =>
    rw [← Except.ok.inj h]
    refine Or.inl (List.drop_eq_nil_iff.not.mpr (Nat.not_le_of_lt ?_))
    exact hends.length_takeWhile_lt fun d hd => by simp [hd]
  | quoted quote =>
    obtain ⟨n, hn, rfl⟩ := exists_of_quotedScalar h
    -- Nothing left would mean that the text ends in the closing quote, which is no break.
    obtain ⟨body, hbody⟩ := exists_of_quotedLength? hn
    refine Or.inl fun (hnil : rest.drop n = []) => ?_
    rw [hnil] at hbody
    rw [hbody] at hends
    have hbreak := (hends.of_append body (by simp)).isBreak_of_singleton
    rw [quote.isBreak_char] at hbreak
    exact absurd hbreak (by simp)
  | block =>
    rw [← Except.ok.inj h]
    refine Or.inl ?_
    rw [Lexeme.length, drop_blockLength]
    exact (hblock rfl).drop_ne_nil _
  | plain =>
    rw [← Except.ok.inj h]
    refine Or.inl (List.drop_eq_nil_iff.not.mpr (Nat.not_le_of_lt ?_))
    exact Nat.lt_of_le_of_lt (plainLength_le ..) hends.length_lineContent_lt

end Scanner

end YamlStyle
