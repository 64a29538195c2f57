import YamlStyle.Token.Scanner

/-!
# Which shape starts here, and how far it reaches

A step of the scanner answers two questions at once: *which* shape starts at a character, and *how
far* it reaches. The first answer is a matter of guards (is this a line start, is a collection open,
what stands right behind), the second a matter of counting, and no property of the scanner needs both
in one breath. `shapeAt` is the first answer alone and `Shape.read` the second, and `lexeme_eq_read`
says that together they are the step. Facts about a step are then facts about ten shapes, not about
eighteen branches.

The guards look at little: two bits of the state, the character, and whether what stands behind is
separated, ends a key or completes a document marker. `shapeAt_congr` is that remark.
-/

set_option autoImplicit false

namespace YamlStyle

theorem not_isBlank_of_isBreak {c : Char} (h : isBreak c = true) : isBlank c = false := by
  simp only [isBreak, Bool.or_eq_true, beq_iff_eq] at h
  rcases h with rfl | rfl <;> decide

namespace Scanner

/-- What can start at a character. -/
inductive Shape where
  /-- A stretch of blanks. -/
  | blanks
  /-- A line ending. -/
  | ending
  /-- A token that reaches to the end of its line. -/
  | line (kind : TokenKind)
  /-- A document marker. -/
  | marker (kind : TokenKind)
  /-- A token of one character that leaves the open collections alone or opens one. -/
  | indicator (kind : TokenKind)
  /-- A closing bracket. -/
  | closing (bracket : Bracket)
  /-- A token that is a mark and a name. -/
  | name (kind : TokenKind)
  | quoted (quote : Quote)
  | block
  | plain
  deriving DecidableEq, Repr

/-- The shape that starts at the character `c`, with `rest` after it. -/
def shapeAt (s : State) (c : Char) (rest : Text) : Shape :=
  if isBlank c then .blanks
  else if isBreak c then .ending
  else if c == '#' then .line .comment
  else if s.atLineStart && isMarker '-' c rest then .marker .documentStart
  else if s.atLineStart && isMarker '.' c rest then .marker .documentEnd
  else if s.atLineStart && c == '%' then .line .directive
  else if c == '-' && !s.inFlow && isSeparated rest then .indicator .blockEntry
  else if c == '?' && isSeparated rest then .indicator .key
  else if c == ':' && endsKey s.inFlow rest then .indicator .value
  else if let some bracket := Bracket.ofOpening? c then .indicator bracket.openKind
  else if let some bracket := Bracket.ofClosing? c then .closing bracket
  else if c == ',' && s.inFlow then .indicator .flowEntry
  else if c == '&' then .name .anchor
  else if c == '*' then .name .aliasNode
  else if c == '!' then .name .tag
  else if let some quote := Quote.ofChar? c then .quoted quote
  else if (c == '|' || c == '>') && !s.inFlow then .block
  else .plain

/-- How far a shape reaches. Only a closing bracket and a quoted scalar can be at fault. -/
def Shape.read (s : State) (c : Char) (rest : Text) : Shape → Except ScanFault Lexeme
  | .blanks => .ok (.layout (rest.takeWhile isBlank).length)
  | .ending => .ok (.layout (if c == '\r' && rest.head? == some '\n' then 1 else 0))
  | .line kind => .ok (.token kind (lineLength rest))
  | .marker kind => .ok (.token kind 2)
  | .indicator kind => .ok (.token kind 0)
  | .closing bracket => closeFlow s bracket
  | .name kind => .ok (.token kind (nameLength rest))
  | .quoted quote => quotedScalar quote rest
  | .block => .ok (.token .blockScalar (blockLength s.indent rest))
  | .plain => .ok (.token .scalar (plainLength s.inFlow c rest))

theorem lexeme_eq_read (s : State) (c : Char) (rest : Text) :
    lexeme s c rest = (shapeAt s c rest).read s c rest := by
  unfold lexeme shapeAt
  cases Bracket.ofOpening? c <;> cases Bracket.ofClosing? c <;> cases Quote.ofChar? c <;>
    (simp only [apply_ite (Shape.read s c rest)]; rfl)

theorem lexeme_of_isBlank {c : Char} (s : State) (rest : Text) (h : isBlank c = true) :
    lexeme s c rest = .ok (.layout (rest.takeWhile isBlank).length) := by
  rw [lexeme, if_pos h]

theorem lexeme_of_isBreak {c : Char} (s : State) (rest : Text) (h : isBreak c = true) :
    lexeme s c rest = .ok (.layout (if c == '\r' && rest.head? == some '\n' then 1 else 0)) := by
  rw [lexeme, if_neg (by rw [not_isBlank_of_isBreak h]; simp), if_pos h]

theorem eq_of_closeFlow {s : State} {bracket : Bracket} {found : Lexeme}
    (h : closeFlow s bracket = .ok found) : found = .token bracket.closeKind 0 := by
  unfold closeFlow at h
  split at h
  · exact absurd h (by simp)
  · split at h
    · exact (Except.ok.inj h).symm
    · exact absurd h (by simp)

theorem exists_of_quotedScalar {quote : Quote} {rest : Text} {found : Lexeme}
    (h : quotedScalar quote rest = .ok found) :
    ∃ n, quotedLength? quote rest = some n ∧ found = .token .scalar n := by
  unfold quotedScalar at h
  split at h
  · rename_i n hn
    exact ⟨n, hn, (Except.ok.inj h).symm⟩
  · exact absurd h (by simp)

theorem isMarker_of_ne {mark c : Char} (h : c ≠ mark) (rest : Text) : isMarker mark c rest = false := by
  unfold isMarker
  split
  · simp [h]
  · rfl

/-! ## Reading a shape back -/

theorem isBlank_of_shapeAt {s : State} {c : Char} {rest : Text} (h : shapeAt s c rest = .blanks) :
    isBlank c = true := by
  revert h
  fun_cases shapeAt s c rest
  all_goals first | exact fun _ => ‹_› | exact fun h => Shape.noConfusion h

theorem isBreak_of_shapeAt {s : State} {c : Char} {rest : Text} (h : shapeAt s c rest = .ending) :
    isBreak c = true := by
  revert h
  fun_cases shapeAt s c rest
  all_goals first | exact fun _ => ‹_› | exact fun h => Shape.noConfusion h

/-- A document marker is made of a character that is no break. -/
theorem isMarker_of_shapeAt {s : State} {c : Char} {rest : Text} {kind : TokenKind}
    (h : shapeAt s c rest = .marker kind) :
    ∃ mark, isBreak mark = false ∧ isMarker mark c rest = true := by
  revert h
  fun_cases shapeAt s c rest
  case case4 hmarker => exact fun _ => ⟨'-', by decide, (Bool.and_eq_true _ _ |>.mp hmarker).2⟩
  case case5 hmarker => exact fun _ => ⟨'.', by decide, (Bool.and_eq_true _ _ |>.mp hmarker).2⟩
  all_goals exact fun h => Shape.noConfusion h

/-- The characters that document markers are made of. -/
def markerChars : List Char := ['-', '.']

theorem isBreak_of_mem_markerChars {mark : Char} (h : mark ∈ markerChars) : isBreak mark = false := by
  simp only [markerChars, List.mem_cons, List.not_mem_nil, or_false] at h
  rcases h with rfl | rfl <;> decide

/-- The shape depends on the state by two bits and on what follows by three tests. -/
theorem shapeAt_congr {s s' : State} {c : Char} {rest rest' : Text}
    (hstart : s'.atLineStart = s.atLineStart) (hflow : s'.inFlow = s.inFlow)
    (hsep : isSeparated rest' = isSeparated rest)
    (hkey : ∀ inFlow, endsKey inFlow rest' = endsKey inFlow rest)
    (hmarker : ∀ mark ∈ markerChars, isMarker mark c rest' = isMarker mark c rest) :
    shapeAt s' c rest' = shapeAt s c rest := by
  unfold shapeAt
  rw [hstart, hflow, hsep, hkey, hmarker '-' (by decide), hmarker '.' (by decide)]

end Scanner

end YamlStyle
