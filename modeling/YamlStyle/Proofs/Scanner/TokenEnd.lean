import YamlStyle.Proofs.Scanner.Block
import YamlStyle.Proofs.Scanner.Layout
import YamlStyle.Proofs.Scanner.Quoted
import YamlStyle.Proofs.Scanner.Reaches

/-!
# How tokens end

A token may run over many lines, and it may have blanks inside. But it never ends right behind a break,
and it ends in a blank only if the line is over there, as a header `|` with a tab behind it does. So the
end of a token is always *on* a line, and tells which line its last character is on.

Each shape has its own reason. A comment takes everything to the end of its line, a name stops before a
blank, a quoted scalar ends in its quote, a plain scalar gives back its blanks, and the body of a block
scalar ends with the content of a line that is indented and so not empty.
-/

set_option autoImplicit false

namespace YamlStyle

/-- A piece of a text, with `rest` behind it, ends in a character that is no break, and in a blank only
if nothing more is on the line. -/
def EndsOnLine (piece rest : Text) : Prop :=
  ∃ body d, piece = body ++ [d] ∧ isBreak d = false ∧ (isBlank d = true → lineContent rest = [])

namespace EndsOnLine

variable {piece rest : Text}

theorem append (h : EndsOnLine piece rest) (front : Text) : EndsOnLine (front ++ piece) rest := by
  obtain ⟨body, d, rfl, hd⟩ := h
  exact ⟨front ++ body, d, by rw [List.append_assoc], hd⟩

theorem of_forall (hne : piece ≠ [])
    (h : ∀ d ∈ piece, isBreak d = false ∧ (isBlank d = true → lineContent rest = [])) :
    EndsOnLine piece rest :=
  ⟨piece.dropLast, piece.getLast hne, (List.dropLast_concat_getLast hne).symm,
    h _ (List.getLast_mem hne)⟩

theorem of_solid (hne : piece ≠ []) (h : ∀ d ∈ piece, isLayout d = false) : EndsOnLine piece rest := by
  refine of_forall hne fun d hd => ?_
  obtain ⟨hblank, hbreak⟩ := Bool.or_eq_false_iff.mp (h d hd)
  exact ⟨hbreak, fun hd => absurd (hblank.symm.trans hd) (by simp)⟩

theorem of_line (hne : piece ≠ []) (h : ∀ d ∈ piece, isBreak d = false) (hrest : lineContent rest = []) :
    EndsOnLine piece rest :=
  of_forall hne fun d hd => ⟨h d hd, fun _ => hrest⟩

end EndsOnLine

theorem lineContent_lineRest (text : Text) : lineContent (lineRest text) = [] := by
  have hhead := List.head?_dropWhile_not (fun c => !isBreak c) text
  rw [← lineRest] at hhead
  cases hrest : lineRest text with
  | nil => rfl
  | cons c rest =>
    rw [hrest] at hhead
    have hc : isBreak c = true := by simpa using hhead
    simp [lineContent, hc]

theorem Bracket.isPseudo_kinds (b : Bracket) :
    b.openKind.isPseudo = false ∧ b.closeKind.isPseudo = false := by
  cases b <;> decide

namespace Scanner

variable {rest : Text}

/-! ## Shapes -/

theorem drop_lineLength (rest : Text) : rest.drop (lineLength rest) = lineRest rest := by
  have hdrop : (lineContent rest ++ lineRest rest).drop (lineLength rest) = lineRest rest :=
    List.drop_left
  rwa [lineContent_append_lineRest] at hdrop

theorem endsOnLine_quoted {quote : Quote} {n : Nat} (h : quotedLength? quote rest = some n) :
    EndsOnLine (rest.take n) (rest.drop n) := by
  obtain ⟨body, hbody⟩ := exists_of_quotedLength? h
  have htake : rest.take n = body ++ [quote.char] := by
    have hparts : rest.take n ++ rest.drop n = body ++ [quote.char] ++ rest.drop n := by
      rw [List.take_append_drop, List.append_assoc]
      exact hbody
    exact List.append_cancel_right hparts
  refine ⟨body, quote.char, htake, quote.isBreak_char, ?_⟩
  intro hblank
  cases quote <;> exact absurd hblank (by decide)

/-- A plain scalar is one character, or ends in a character that is no layout. -/
theorem endsOnLine_plain (inFlow : Bool) (previous : Char) (rest back : Text) :
    plainLength inFlow previous rest = 0 ∨
      EndsOnLine (rest.take (plainLength inFlow previous rest)) back := by
  induction rest generalizing previous with
  | nil => exact Or.inl rfl
  | cons c rest ih =>
    rw [plainLength]
    split
    · exact Or.inl rfl
    · rename_i hstops
      split
      · split
        · exact Or.inl rfl
        · rename_i hblank
          have hbreak : isBreak c = false := by
            simp only [stopsPlain, Bool.or_eq_true, not_or] at hstops
            exact Bool.eq_false_iff.mpr hstops.1.1.1
          refine Or.inr (.of_solid (by simp) ?_)
          intro d hd
          obtain rfl := List.mem_singleton.mp hd
          simp [isLayout, hblank, hbreak]
      · rename_i n hn
        rcases ih c with hzero | hends
        · exact absurd (hn.symm.trans hzero) (by simp)
        · rw [hn] at hends
          exact Or.inr (hends.append [c])

theorem take_body (above text : Text) (n : Nat) :
    (above ++ text).take (above.length + (lineContent text).length + n) =
      (above ++ lineContent text) ++ ((lineEnding text).text ++ lineBelow text).take n := by
  have htake : ((above ++ lineContent text) ++ ((lineEnding text).text ++ lineBelow text)).take
      ((above ++ lineContent text).length + n) =
      (above ++ lineContent text) ++ ((lineEnding text).text ++ lineBelow text).take n :=
    List.take_length_add_append n
  rwa [List.append_assoc, line_append, List.length_append] at htake

/-- The body of a block scalar is empty, or ends with the content of a line. -/
theorem endsOnLine_body (indent : Nat) (above text : Text) :
    bodyFrom indent above.length text = 0 ∨
      EndsOnLine ((above ++ text).take (bodyFrom indent above.length text))
        ((above ++ text).drop (bodyFrom indent above.length text)) := by
  induction text using line_induction generalizing above with
  | nil => exact Or.inl (bodyFrom_nil indent _)
  | line text hne ih =>
    -- Past the first line, a body that goes on ends where the body below it does.
    have hmore : ∀ n, EndsOnLine (((lineEnding text).text ++ lineBelow text).take n)
        (((lineEnding text).text ++ lineBelow text).drop n) →
        EndsOnLine ((above ++ text).take (above.length + (lineContent text).length + n))
          ((above ++ text).drop (above.length + (lineContent text).length + n)) := by
      intro n hn
      rw [drop_body, take_body]
      exact hn.append (above ++ lineContent text)
    rw [bodyFrom_of_ne_nil _ _ hne]
    split
    · split
      · exact Or.inl rfl
      · rename_i n hn
        rcases ih (lineEnding text).text with hzero | hends
        · exact absurd (hn.symm.trans hzero) (by simp)
        · rw [hn] at hends
          exact Or.inr (hmore (n + 1) hends)
    · split
      · rename_i hindent
        rcases ih (lineEnding text).text with hzero | hends
        · -- The body ends with this line, which begins with a space.
          have hcontent : lineContent text ≠ [] := by
            intro hnil
            rw [hnil] at hindent
            exact absurd hindent (Nat.not_lt_zero _)
          rw [hzero, drop_body, take_body, List.drop_zero, lineEnding_append_lineBelow, List.take_zero,
            List.append_nil]
          have hline : EndsOnLine (lineContent text) (lineRest text) :=
            .of_line hcontent (fun d hd => isBreak_of_mem_lineContent hd) (lineContent_lineRest text)
          exact Or.inr (hline.append above)
        · exact Or.inr (hmore _ hends)
      · exact Or.inl rfl

/-- A block scalar takes the rest of its line along, and then the body. -/
theorem take_block (indent : Nat) (rest : Text) :
    rest.take (blockLength indent rest) = lineContent rest ++
      ((lineEnding rest).text ++ lineBelow rest).take
        (bodyFrom indent (lineEnding rest).text.length (lineBelow rest)) := by
  have htake := take_body [] rest (bodyFrom indent (lineEnding rest).text.length (lineBelow rest))
  rwa [List.nil_append, List.nil_append, List.length_nil, Nat.zero_add, ← blockLength_eq] at htake

theorem endsOnLine_block (indent : Nat) (c : Char) (hc : isBreak c = false) (rest : Text) :
    EndsOnLine (c :: rest.take (blockLength indent rest)) (rest.drop (blockLength indent rest)) := by
  rw [take_block, drop_blockLength]
  rcases endsOnLine_body indent (lineEnding rest).text (lineBelow rest) with hzero | hends
  · -- Only the header line.
    rw [hzero, List.take_zero, List.drop_zero, List.append_nil, lineEnding_append_lineBelow]
    refine .of_line (by simp) ?_ (lineContent_lineRest rest)
    intro d hd
    rcases List.mem_cons.mp hd with rfl | hd
    · exact hc
    · exact isBreak_of_mem_lineContent hd
  · exact hends.append (c :: lineContent rest)

theorem isLayout_of_mem_name {d : Char} (h : d ∈ rest.take (nameLength rest)) : isLayout d = false := by
  rw [nameLength, take_length_takeWhile] at h
  have hd := List.mem_takeWhile_imp h
  simp only [Bool.not_eq_true', Bool.or_eq_false_iff] at hd
  exact Bool.or_eq_false_iff.mpr hd.1

/-- A document marker is one character three times. -/
theorem eq_of_mem_marker {mark c : Char} (h : isMarker mark c rest = true) :
    ∀ d ∈ c :: rest.take 2, d = c := by
  unfold isMarker at h
  split at h
  · simp only [Bool.and_eq_true, beq_iff_eq] at h
    obtain ⟨⟨⟨rfl, rfl⟩, rfl⟩, -⟩ := h
    simp
  · exact absurd h (by simp)

/-! ## Tokens -/

variable {s : State} {c : Char} {kind : TokenKind} {n : Nat}

theorem isLayout_of_token (h : lexeme s c rest = .ok (.token kind n)) : isLayout c = false := by
  rw [← Bool.not_eq_true]
  intro hlayout
  obtain ⟨m, hm⟩ := exists_lexeme_of_isLayout s rest hlayout
  exact absurd (h.symm.trans hm) (by simp)

/-- **Every token ends on a line.** -/
theorem endsOnLine_of_lexeme (h : lexeme s c rest = .ok (.token kind n)) :
    EndsOnLine (c :: rest.take n) (rest.drop n) := by
  have hc := isLayout_of_token h
  have hbreak : isBreak c = false := (Bool.or_eq_false_iff.mp hc).2
  have hsingle : ∀ back, EndsOnLine [c] back := fun back => .of_solid (by simp) (by simpa using hc)
  rw [lexeme_eq_read] at h
  generalize hshape : shapeAt s c rest = shape at h
  cases shape with
  | blanks | ending => exact absurd h (by simp [Shape.read])
  | line kind =>
    obtain ⟨-, rfl⟩ := Lexeme.token.inj (Except.ok.inj h)
    rw [take_lineLength, drop_lineLength]
    refine .of_line (by simp) ?_ (lineContent_lineRest rest)
    intro d hd
    rcases List.mem_cons.mp hd with rfl | hd
    · exact hbreak
    · exact isBreak_of_mem_lineContent hd
  | marker kind =>
    obtain ⟨-, rfl⟩ := Lexeme.token.inj (Except.ok.inj h)
    obtain ⟨mark, -, hmarker⟩ := isMarker_of_shapeAt hshape
    refine .of_solid (by simp) ?_
    intro d hd
    rw [eq_of_mem_marker hmarker d hd]
    exact hc
  | indicator kind =>
    obtain ⟨-, rfl⟩ := Lexeme.token.inj (Except.ok.inj h)
    exact hsingle _
  | closing bracket =>
    obtain ⟨-, rfl⟩ := Lexeme.token.inj (eq_of_closeFlow h)
    exact hsingle _
  | name kind =>
    obtain ⟨-, rfl⟩ := Lexeme.token.inj (Except.ok.inj h)
    refine .of_solid (by simp) ?_
    intro d hd
    rcases List.mem_cons.mp hd with rfl | hd
    · exact hc
    · exact isLayout_of_mem_name hd
  | quoted quote =>
    obtain ⟨m, hm, hfound⟩ := exists_of_quotedScalar h
    obtain ⟨-, rfl⟩ := Lexeme.token.inj hfound
    exact (endsOnLine_quoted hm).append [c]
  | block =>
    obtain ⟨-, rfl⟩ := Lexeme.token.inj (Except.ok.inj h)
    exact endsOnLine_block s.indent c hbreak rest
  | plain =>
    obtain ⟨-, rfl⟩ := Lexeme.token.inj (Except.ok.inj h)
    rcases endsOnLine_plain s.inFlow c rest (rest.drop (plainLength s.inFlow c rest)) with hzero | hends
    · rw [hzero]
      exact hsingle _
    · exact hends.append [c]

/-- The kinds that frame a document are not for the scanner to report. -/
theorem isPseudo_of_lexeme (h : lexeme s c rest = .ok (.token kind n)) : kind.isPseudo = false := by
  revert h
  fun_cases lexeme s c rest
  case case10 =>
    intro h
    rw [← (Lexeme.token.inj (Except.ok.inj h)).1]
    exact (Bracket.isPseudo_kinds _).1
  case case11 =>
    intro h
    rw [(Lexeme.token.inj (eq_of_closeFlow h)).1]
    exact (Bracket.isPseudo_kinds _).2
  case case16 =>
    intro h
    obtain ⟨m, -, hfound⟩ := exists_of_quotedScalar h
    rw [(Lexeme.token.inj hfound).1]
    rfl
  all_goals
    intro h
    cases h <;> rfl

end Scanner

/-- Every token of a document was read at some place of it. -/
theorem exists_place {text : Text} {t : RawToken} (ht : t ∈ (yamlScanner text).tokens) :
    ∃ before place front c rest n, Scanner.Reaches (.initial text) text before place (c :: rest) ∧
      text = front ++ c :: rest ∧ Scanner.lexeme place c rest = .ok (.token t.kind n) ∧
      t.start = width front ∧ t.stop = width front + width (c :: rest.take n) := by
  obtain ⟨last, left, hreaches, -⟩ := Scanner.exists_halt (.initial text) text
  obtain ⟨before, place, c, rest, n, hplace, hfound, hstart, hstop⟩ := hreaches.exists_step ht
  obtain ⟨front, htext, hpos⟩ := hplace.exists_front
  exact ⟨before, place, front, c, rest, n, hplace, htext, hfound, hstart.trans hpos, by rw [hstop, hpos]⟩

theorem exists_read {text : Text} {t : RawToken} (ht : t ∈ (yamlScanner text).tokens) :
    ∃ front s c rest n, text = front ++ c :: rest ∧ Scanner.lexeme s c rest = .ok (.token t.kind n) ∧
      t.start = width front ∧ t.stop = width front + width (c :: rest.take n) := by
  obtain ⟨_, place, front, c, rest, n, -, hread⟩ := exists_place ht
  exact ⟨front, place, c, rest, n, hread⟩

theorem isPseudo_of_mem_tokens {text : Text} {t : RawToken} (ht : t ∈ (yamlScanner text).tokens) :
    t.kind.isPseudo = false := by
  obtain ⟨_, _, _, _, _, -, hfound, -⟩ := exists_read ht
  exact Scanner.isPseudo_of_lexeme hfound

/-- The last character of a token, and where it is. -/
theorem exists_last {text : Text} {t : RawToken} (ht : t ∈ (yamlScanner text).tokens) :
    ∃ front d back, text = front ++ d :: back ∧ t.stop = width (front ++ [d]) ∧ isBreak d = false ∧
      (isBlank d = true → lineContent back = []) := by
  obtain ⟨front, s, c, rest, n, rfl, hfound, -, hstop⟩ := exists_read ht
  obtain ⟨body, d, hpiece, hbreak, hblank⟩ := Scanner.endsOnLine_of_lexeme hfound
  refine ⟨front ++ body, d, rest.drop n, ?_, ?_, hbreak, hblank⟩
  · have hparts : c :: rest = body ++ [d] ++ rest.drop n := by
      rw [← hpiece, List.cons_append, List.take_append_drop]
    rw [hparts]
    simp
  · rw [hstop, hpiece, ← width_append, List.append_assoc]

/-- A comment is a `#` and the rest of its line. -/
theorem exists_comment {text : Text} {t : RawToken} (ht : t ∈ (yamlScanner text).tokens)
    (hkind : t.kind = .comment) :
    ∃ front rest, text = front ++ '#' :: rest ∧ t.start = width front ∧
      t.stop = width front + width ('#' :: lineContent rest) := by
  obtain ⟨front, s, c, rest, n, rfl, hfound, hstart, hstop⟩ := exists_read ht
  rw [hkind] at hfound
  obtain ⟨rfl, rfl⟩ := Scanner.comment_of_lexeme hfound
  rw [Scanner.take_lineLength] at hstop
  exact ⟨front, rest, rfl, hstart, hstop⟩

end YamlStyle
