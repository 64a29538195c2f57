import YamlStyle.Proofs.Cursor.Walks
import YamlStyle.Proofs.Scanner.Gap
import YamlStyle.Proofs.Scanner.Markers

/-!
# A cursor keeps step with the scanner

At every place that a scan comes through there is a cursor, with the same offset, the same start of the
line and the same open collections (`Cursor.ofState`). What the cursor does there is what the scanner does:
it sees the same shape (`shape?_eq`), reads it to the same end (`read?_eq`) and stops at the same faults
(`act?_eq`). A cursor finds the end of a token by offsets where the scanner counts characters, and looks for
the start of the line in the bytes of the token where the scanner divides it. None of this fails.
-/

set_option autoImplicit false

namespace YamlStyle

namespace Scanner

/-! ## Shapes -/

namespace Cursor

/-- The cursor at a place of a scan. -/
def ofState (tokens : List RawToken) (here : State) : Cursor :=
  ⟨here.pos, here.lineStart, here.flow, tokens⟩

end Cursor

section

variable {here : State} {c seen : Char} {front rest : Text}

/-- Beyond ASCII nothing has a meaning of its own. -/
theorem shapeAt_of_le (h : 128 ≤ c.toNat) (s : State) (rest : Text) : shapeAt s c rest = .plain := by
  have hne : ∀ a : Char, a.toNat < 128 → c ≠ a := by
    rintro a ha rfl
    omega
  simp [shapeAt, isBlank_of_le h, isBreak_of_le h, hne, isMarker_of_ne, Bracket.ofOpening?,
    Bracket.ofClosing?, Quote.ofChar?]

theorem shape?_of_le (h : 128 ≤ seen.toNat) (cursor : Cursor) (bs : List UInt8) :
    cursor.shape? bs seen = some .plain := by
  have hne : ∀ a : Char, a.toNat < 128 → seen ≠ a := by
    rintro a ha rfl
    omega
  simp [Cursor.shape?, markerAt?, isBlank_of_le h, isBreak_of_le h, hne, Bracket.ofOpening?, Bracket.ofClosing?,
    Quote.ofChar?]

theorem markerAt?_bytes {mark : Char} (hmark : mark.toNat < 128) (atStart : Bool) (front rest : Text)
    (c : Char) :
    markerAt? (bytes (front ++ c :: rest)) atStart mark c (width front) =
      some (atStart && isMarker mark c rest) := by
  by_cases hc : c = mark
  · subst hc
    cases atStart with
    | false => rfl
    | true =>
      rw [markerAt?, if_pos (by simp), marker?_bytes hmark]
      rfl
  · rw [markerAt?, if_neg (by simp [hc]), isMarker_of_ne hc, Bool.and_false]

/-- **The cursor sees the shape that is there.** -/
theorem shape?_eq (hpos : here.pos = width front) (hseen : Blurs seen c) (tokens : List RawToken) :
    (Cursor.ofState tokens here).shape? (bytes (front ++ c :: rest)) seen =
      some (shapeAt here c rest) := by
  by_cases hc : c.toNat < 128
  · obtain rfl : seen = c := by
      rcases hseen with h | ⟨-, hle⟩
      · exact h
      · omega
    have hnext : here.pos + 1 = width (front ++ [seen]) := by
      rw [hpos, width_append, width_cons, utf8Size_of_lt hc, width_nil]
    have hsep := separatedAt_bytes (front ++ [seen]) rest
    have hkey := endsKeyAt_bytes here.inFlow (front ++ [seen]) rest
    rw [List.append_assoc, List.singleton_append, ← hnext] at hsep hkey
    have hopens := markerAt?_bytes (by decide : '-'.toNat < 128) here.atLineStart front rest seen
    have hcloses := markerAt?_bytes (by decide : '.'.toNat < 128) here.atLineStart front rest seen
    rw [← hpos, State.atLineStart] at hopens hcloses
    rw [State.inFlow] at hkey
    simp only [Cursor.shape?, Cursor.ofState, hsep, hkey, hopens, hcloses, Option.bind_eq_bind,
      Option.bind_some]
    rfl
  · have hle := Nat.le_of_not_lt hc
    have hle' : 128 ≤ seen.toNat := by
      rcases hseen with rfl | ⟨hle', -⟩
      · exact hle
      · exact hle'
    rw [shape?_of_le hle', shapeAt_of_le hle]

/-- What begins neither a plain scalar nor a line is one byte, and no break. -/
theorem of_shapeAt {shape : Shape} (h : shapeAt here c rest = shape) (hplain : shape ≠ .plain)
    (hending : shape ≠ .ending) : c.toNat < 128 ∧ isBreak c = false := by
  constructor
  · by_contra hlt
    exact hplain (h.symm.trans (shapeAt_of_le (Nat.le_of_not_lt hlt) here rest))
  · rw [← Bool.not_eq_true]
    intro hc
    apply hending
    rw [← h, shapeAt, if_neg (by simp [not_isBlank_of_isBreak hc]), if_pos hc]

end

/-! ## Moves -/

/-- Where the line starts behind `taken`, which begins at `pos` on a line that starts at `lineStart`. -/
def lineStartPast (pos lineStart : Nat) (taken : Text) : Nat :=
  (lastLine? taken).elim lineStart fun cut => pos + width cut.1

theorem lineStartPast_of_flat {taken : Text} (h : ∀ d ∈ taken, isBreak d = false) (pos lineStart : Nat) :
    lineStartPast pos lineStart taken = lineStart := by
  rw [lineStartPast, lastLine?_of_flat h]
  rfl

/-- What a step of the scanner at `c` is to a cursor. -/
def Turn.ofStep (tokens : List RawToken) (here : State) (c : Char) (rest : Text) :
    Except ScanFault Lexeme → Turn
  | .error fault => .done ⟨tokens, some ⟨here.pos, fault⟩⟩
  | .ok found =>
    .next (.ofState (tokens ++ found.tokens here.pos (here.pos + width (c :: rest.take found.length)))
      (here.after found (c :: rest.take found.length) (rest.drop found.length)))

namespace Cursor

variable {here : State} {c : Char} {front rest : Text} {tokens : List RawToken}

@[simp] theorem ofState_pos (tokens : List RawToken) (here : State) : (ofState tokens here).pos = here.pos :=
  rfl

theorem ofState_advance (tokens : List RawToken) (here : State) (taken back : Text) :
    ofState tokens (here.advance taken back) =
      ⟨here.pos + width taken, lineStartPast here.pos here.lineStart taken, here.flow, tokens⟩ := by
  rw [lineStartPast, State.advance]
  cases lastLine? taken <;> rfl

theorem realign?_bytes (cursor : Cursor) (front taken back : Text) :
    cursor.realign? (bytes (front ++ (taken ++ back))) (width front) (width front + width taken) =
      some { cursor with lineStart := lineStartPast (width front) cursor.lineStart taken } := by
  have hlast := lastBreak?_bytes taken
  rw [realign?, cut?_bytes, lineStartPast, Option.bind_eq_bind, Option.bind_some]
  cases hcut : lastLine? taken with
  | none =>
    rw [hcut] at hlast
    rw [Option.map_eq_none_iff.mp hlast]
    rfl
  | some cut =>
    rw [hcut] at hlast
    obtain ⟨i, hi, hwidth⟩ := Option.map_eq_some_iff.mp hlast
    rw [hi]
    show some { cursor with lineStart := width front + (i + 1) } = _
    rw [hwidth]
    rfl

theorem ofStep_layout (n : Nat) :
    Turn.ofStep tokens here c rest (.ok (.layout n)) =
      .next ⟨here.pos + width (c :: rest.take n), lineStartPast here.pos here.lineStart (c :: rest.take n),
        here.flow, tokens⟩ := by
  show Turn.next (ofState (tokens ++ []) (here.advance (c :: rest.take n) (rest.drop n))) = _
  rw [List.append_nil, ofState_advance]

theorem ofStep_token (kind : TokenKind) (n : Nat) :
    Turn.ofStep tokens here c rest (.ok (.token kind n)) =
      .next ⟨here.pos + width (c :: rest.take n), lineStartPast here.pos here.lineStart (c :: rest.take n),
        (here.track kind).flow, tokens ++ [⟨kind, here.pos, here.pos + width (c :: rest.take n)⟩]⟩ := by
  show Turn.next (ofState _ ((here.track kind).advance (c :: rest.take n) (rest.drop n))) = _
  rw [ofState_advance, track_pos, track_lineStart]
  rfl

/-- A token that stays on its line. -/
theorem ofStep_of_flat {kind : TokenKind} {n : Nat} (hflat : ∀ d ∈ c :: rest.take n, isBreak d = false) :
    Turn.ofStep tokens here c rest (.ok (.token kind n)) =
      .next ({ ofState tokens here with flow := (here.track kind).flow }.emit kind
        (here.pos + width (c :: rest.take n))) := by
  rw [ofStep_token, lineStartPast_of_flat hflat]
  rfl

/-- A token that may run over several lines. -/
theorem realign?_emit (hpos : here.pos = width front) {kind : TokenKind}
    (hflow : (here.track kind).flow = here.flow) (tokens : List RawToken) (c : Char) (rest : Text) (n : Nat) :
    (((ofState tokens here).emit kind (here.pos + width (c :: rest.take n))).realign?
        (bytes (front ++ c :: rest)) here.pos (here.pos + width (c :: rest.take n))).map Turn.next =
      some (Turn.ofStep tokens here c rest (.ok (.token kind n))) := by
  have halign := realign?_bytes ((ofState tokens here).emit kind (here.pos + width (c :: rest.take n)))
    front (c :: rest.take n) (rest.drop n)
  rw [List.cons_append, List.take_append_drop, ← hpos] at halign
  rw [halign, ofStep_token, hflow]
  rfl

/-! ## Reading -/

theorem flat_takeWhile_isBlank (left : Text) : ∀ d ∈ left.takeWhile isBlank, isBreak d = false := by
  intro d hd
  rw [← Bool.not_eq_true]
  intro hbreak
  exact absurd (List.mem_takeWhile_imp hd) (by simp [not_isBlank_of_isBreak hbreak])

theorem skipBlanks_bytes (hpos : here.pos = width front) (left : Text) :
    (ofState tokens here).skipBlanks (bytes (front ++ left)) =
      ofState tokens (here.advance (left.takeWhile isBlank) (left.dropWhile isBlank)) := by
  rw [ofState_advance, lineStartPast_of_flat (flat_takeWhile_isBlank left), skipBlanks]
  show ({ ofState tokens here with pos := pastBlanks _ here.pos } : Cursor) = _
  rw [hpos, pastBlanks_bytes]
  rfl

theorem read?_blanks (hpos : here.pos = width front) (hshape : shapeAt here c rest = .blanks) :
    (ofState tokens here).read? (bytes (front ++ c :: rest)) .blanks =
      some (Turn.ofStep tokens here c rest (Shape.blanks.read here c rest)) := by
  have hc := isBlank_of_shapeAt hshape
  rw [read?, skipBlanks_bytes hpos, ofState_advance, List.takeWhile_cons_of_pos hc, Shape.read,
    ofStep_layout, take_length_takeWhile]

/-- The characters of a line ending that is here. -/
theorem text_split_of_isBreak (hc : isBreak c = true) (rest : Text) :
    (Ending.split (c :: rest)).1.text =
      c :: rest.take (if c == '\r' && rest.head? == some '\n' then 1 else 0) := by
  simp only [isBreak, Bool.or_eq_true, beq_iff_eq] at hc
  rcases hc with rfl | rfl
  · rfl
  · by_cases hlf : rest.head? = some '\n'
    · obtain ⟨tail, rfl⟩ := List.head?_eq_some_iff.mp hlf
      rfl
    · rw [Ending.split_cr hlf, if_neg (by simpa using hlf)]
      rfl

theorem lineStartPast_ending {e : Ending} (he : e ≠ .none) (pos lineStart : Nat) :
    lineStartPast pos lineStart e.text = pos + width e.text := by
  cases e with
  | none => exact absurd rfl he
  | lf | crlf | cr => rfl

theorem read?_ending (hpos : here.pos = width front) (hshape : shapeAt here c rest = .ending) :
    (ofState tokens here).read? (bytes (front ++ c :: rest)) .ending =
      some (Turn.ofStep tokens here c rest (Shape.ending.read here c rest)) := by
  have hc := isBreak_of_shapeAt hshape
  have htext := text_split_of_isBreak hc rest
  have hending : (Ending.split (c :: rest)).1 ≠ .none := by
    intro hnone
    rw [hnone] at htext
    exact absurd htext (by simp [Ending.text])
  have hlength := endingLength_bytes front (c :: rest)
  rw [← hpos] at hlength
  rw [Shape.read, ofStep_layout, ← htext, lineStartPast_ending hending, ← hlength]
  rfl

/-! Most tokens have kinds that leave the open collections alone. -/

theorem track_of_shapeAt {kind : TokenKind}
    (h : shapeAt here c rest = .line kind ∨ shapeAt here c rest = .marker kind ∨
      shapeAt here c rest = .name kind) : (here.track kind).flow = here.flow := by
  revert h
  fun_cases shapeAt here c rest <;> intro h <;> rcases h with h | h | h <;> cases h <;> rfl

theorem push_of_shapeAt {kind : TokenKind} (h : shapeAt here c rest = .indicator kind) :
    (ofState tokens here).push kind = { ofState tokens here with flow := (here.track kind).flow } := by
  revert h
  fun_cases shapeAt here c rest
  case case10 bracket _ =>
    intro h
    obtain rfl := Shape.indicator.inj h
    cases bracket <;> rfl
  all_goals
    intro h
    cases h <;> rfl

/-- The offset behind a character of one byte. -/
theorem pos_add_one (hpos : here.pos = width front) (hc : c.toNat < 128) :
    here.pos + 1 = width (front ++ [c]) := by
  rw [hpos, width_append, width_cons, utf8Size_of_lt hc, width_nil]

theorem read?_line {kind : TokenKind} (hpos : here.pos = width front)
    (hshape : shapeAt here c rest = .line kind) :
    (ofState tokens here).read? (bytes (front ++ c :: rest)) (.line kind) =
      some (Turn.ofStep tokens here c rest ((Shape.line kind).read here c rest)) := by
  obtain ⟨-, hbreak⟩ := of_shapeAt hshape (by simp) (by simp)
  have hcontent : lineContent (c :: rest) = c :: rest.take (lineLength rest) := by
    rw [take_lineLength, lineContent, List.takeWhile_cons_of_pos (by simp [hbreak])]
    rfl
  have hflat : ∀ d ∈ c :: rest.take (lineLength rest), isBreak d = false := by
    rw [← hcontent]
    exact fun d hd => isBreak_of_mem_lineContent hd
  have hend := lineEnd?_bytes front (c :: rest)
  rw [hcontent, ← hpos] at hend
  rw [read?, ofState_pos, hend, Shape.read, ofStep_of_flat hflat, track_of_shapeAt (Or.inl hshape)]
  rfl

theorem read?_marker {kind : TokenKind} (hshape : shapeAt here c rest = .marker kind) (bs : List UInt8) :
    (ofState tokens here).read? bs (.marker kind) =
      some (Turn.ofStep tokens here c rest ((Shape.marker kind).read here c rest)) := by
  obtain ⟨hlt, hbreak⟩ := of_shapeAt hshape (by simp) (by simp)
  obtain ⟨mark, -, hmarker⟩ := isMarker_of_shapeAt hshape
  have hsame := eq_of_mem_marker hmarker
  obtain ⟨rfl, after, rfl, -⟩ := isMarker_iff.mp hmarker
  have hwidth : width (c :: (c :: c :: after).take 2) = 3 := by
    simp [utf8Size_of_lt hlt]
  rw [Shape.read, ofStep_of_flat fun d hd => hsame d hd ▸ hbreak, track_of_shapeAt (Or.inr (Or.inl hshape)),
    hwidth]
  rfl

theorem read?_indicator {kind : TokenKind} (hshape : shapeAt here c rest = .indicator kind)
    (bs : List UInt8) :
    (ofState tokens here).read? bs (.indicator kind) =
      some (Turn.ofStep tokens here c rest ((Shape.indicator kind).read here c rest)) := by
  obtain ⟨hlt, hbreak⟩ := of_shapeAt hshape (by simp) (by simp)
  rw [Shape.read, ofStep_of_flat (by simpa using hbreak), read?, push_of_shapeAt hshape, List.take_zero,
    width_cons, width_nil, utf8Size_of_lt hlt]
  rfl

theorem read?_closing {bracket : Bracket} (hshape : shapeAt here c rest = .closing bracket)
    (bs : List UInt8) :
    (ofState tokens here).read? bs (.closing bracket) =
      some (Turn.ofStep tokens here c rest ((Shape.closing bracket).read here c rest)) := by
  obtain ⟨hlt, hbreak⟩ := of_shapeAt hshape (by simp) (by simp)
  have hpopped : (here.track bracket.closeKind).flow = here.flow.tail := by
    cases bracket <;> rfl
  have hclosed : Turn.ofStep tokens here c rest (.ok (.token bracket.closeKind 0)) =
      .next ({ ofState tokens here with flow := here.flow.tail }.emit bracket.closeKind (here.pos + 1)) := by
    rw [ofStep_of_flat (by simpa using hbreak), hpopped, List.take_zero, width_cons, width_nil,
      utf8Size_of_lt hlt]
  rw [read?, Shape.read, close, closeFlow, ofState]
  cases hflow : here.flow with
  | nil => rfl
  | cons entry below =>
    dsimp only
    split
    · rw [hclosed, hflow]
      rfl
    · rfl

theorem read?_name {kind : TokenKind} (hpos : here.pos = width front)
    (hshape : shapeAt here c rest = .name kind) :
    (ofState tokens here).read? (bytes (front ++ c :: rest)) (.name kind) =
      some (Turn.ofStep tokens here c rest ((Shape.name kind).read here c rest)) := by
  obtain ⟨hlt, hbreak⟩ := of_shapeAt hshape (by simp) (by simp)
  have hflat : ∀ d ∈ c :: rest.take (nameLength rest), isBreak d = false := by
    intro d hd
    rcases List.mem_cons.mp hd with rfl | hd
    · exact hbreak
    · exact (Bool.or_eq_false_iff.mp (isLayout_of_mem_name hd)).2
  have hend := nameEnd?_bytes (front ++ [c]) rest
  rw [List.append_assoc, List.singleton_append, ← pos_add_one hpos hlt] at hend
  rw [read?, ofState_pos, hend, Shape.read, ofStep_of_flat hflat,
    track_of_shapeAt (Or.inr (Or.inr hshape)), width_cons, utf8Size_of_lt hlt, ← Nat.add_assoc]
  rfl

theorem read?_quoted {quote : Quote} (hpos : here.pos = width front)
    (hshape : shapeAt here c rest = .quoted quote) :
    (ofState tokens here).read? (bytes (front ++ c :: rest)) (.quoted quote) =
      some (Turn.ofStep tokens here c rest ((Shape.quoted quote).read here c rest)) := by
  obtain ⟨hlt, -⟩ := of_shapeAt hshape (by simp) (by simp)
  have hend := quotedEnd?_bytes quote (front ++ [c]) rest
  rw [List.append_assoc, List.singleton_append, ← pos_add_one hpos hlt] at hend
  rw [read?, ofState_pos, hend, Shape.read, quotedScalar]
  cases quotedLength? quote rest with
  | none => rfl
  | some n =>
    have hstop : here.pos + 1 + width (rest.take n) = here.pos + width (c :: rest.take n) := by
      rw [width_cons, utf8Size_of_lt hlt, Nat.add_assoc]
    dsimp only [Option.map_some, Option.bind_eq_bind, Option.bind_some]
    rw [hstop, ← realign?_emit hpos rfl, Option.map_eq_bind]
    rfl

/-- The spaces in front of a header are those that its line begins with. -/
theorem leadingSpaces_append_of_ne (hc : c ≠ ' ') (line rest : Text) :
    leadingSpaces (line ++ c :: rest) = leadingSpaces line := by
  induction line with
  | nil => simp [leadingSpaces, hc]
  | cons d line ih =>
    simp only [leadingSpaces, List.cons_append, List.takeWhile_cons] at ih ⊢
    split
    · rw [List.length_cons, List.length_cons, ih]
    · rfl

theorem read?_block {text : Text} (hreaches : Reaches (.initial text) text tokens here (c :: rest))
    (hshape : shapeAt here c rest = .block) :
    (ofState tokens here).read? (bytes text) .block =
      some (Turn.ofStep tokens here c rest (Shape.block.read here c rest)) := by
  obtain ⟨hlt, hbreak⟩ := of_shapeAt hshape (by simp) (by simp)
  have hspace : c ≠ ' ' := by
    rintro rfl
    exact absurd hshape (by simp [shapeAt, isBlank])
  obtain ⟨above, line, honline⟩ := hreaches.exists_onLine
  have hpos : here.pos = width (above ++ line) := honline.pos
  have htext : text = (above ++ line) ++ c :: rest := by
    rw [List.append_assoc]
    exact honline.whole
  -- What is between the start of the line and the header.
  have hline : cut? (bytes text) here.lineStart here.pos = some (bytes line) := by
    rw [honline.whole, honline.lineStart, hpos, width_append]
    exact cut?_bytes above line (c :: rest)
  have hindent : leadingSpaces line = here.indent := by
    rw [hreaches.indent_eq honline.whole honline.lineStart, leadingSpaces_append_of_ne hspace]
  have hheader := lineEnd?_bytes (above ++ line) (c :: rest)
  have hnext := add_endingLength (above ++ line) (c :: rest)
  have hbody := bodyEnd?_block here.indent (above ++ line) rest hbreak
  have hflow : (here.track .blockScalar).flow = here.flow := rfl
  have halign := realign?_emit hpos hflow tokens c rest (blockLength here.indent rest)
  rw [← htext, ← hpos] at hheader hnext hbody
  rw [← htext] at halign
  rw [read?, Shape.read]
  show (cut? _ here.lineStart here.pos >>= _) = _
  simp only [hline, ofState_pos, hheader, Option.bind_eq_bind, Option.bind_some, leadingSpaceBytes_bytes,
    hindent, hnext, hbody]
  rw [← halign, Option.map_eq_bind]
  rfl

theorem read?_plain (hpos : here.pos = width front) (hshape : shapeAt here c rest = .plain) :
    (ofState tokens here).read? (bytes (front ++ c :: rest)) .plain =
      some (Turn.ofStep tokens here c rest (Shape.plain.read here c rest)) := by
  have hend := plainEnd?_bytes hshape front
  rw [← hpos] at hend
  have hmax : max (here.pos + width (c :: rest.take (plainLength here.inFlow c rest))) (here.pos + 1) =
      here.pos + width (c :: rest.take (plainLength here.inFlow c rest)) := by
    have hpos := c.utf8Size_pos
    rw [width_cons]
    omega
  rw [Shape.read, ofStep_of_flat (isPlain_of_shapeAt hshape front).flat, read?, ofState_pos]
  show (plainEnd? _ here.inFlow here.pos here.pos here.pos >>= _) = _
  rw [hend, Option.bind_eq_bind, Option.bind_some, hmax]
  rfl

/-! ## Acting -/

section

variable {text : Text}

/-- Every shape is read to the end that the scanner has for it. -/
theorem read?_eq (h : Reaches (.initial text) text tokens here (c :: rest)) :
    (ofState tokens here).read? (bytes text) (shapeAt here c rest) =
      some (Turn.ofStep tokens here c rest (lexeme here c rest)) := by
  obtain ⟨front, rfl, hpos⟩ := h.exists_front
  rw [lexeme_eq_read]
  generalize hshape : shapeAt here c rest = shape
  cases shape with
  | blanks => exact read?_blanks hpos hshape
  | ending => exact read?_ending hpos hshape
  | line kind => exact read?_line hpos hshape
  | marker kind => exact read?_marker hshape _
  | indicator kind => exact read?_indicator hshape _
  | closing bracket => exact read?_closing hshape _
  | name kind => exact read?_name hpos hshape
  | quoted quote => exact read?_quoted hpos hshape
  | block => exact read?_block h hshape
  | plain => exact read?_plain hpos hshape

/-- **A cursor does what the scanner does.** -/
theorem act?_eq (h : Reaches (.initial text) text tokens here (c :: rest)) :
    (ofState tokens here).act? (bytes text) =
      some (Turn.ofStep tokens here c rest (lexeme here c rest)) := by
  obtain ⟨front, htext, hpos⟩ := h.exists_front
  obtain ⟨b, hb, hseen⟩ := exists_byte front rest c
  have hshape : (ofState tokens here).shape? (bytes (front ++ c :: rest)) (byteChar b) = _ :=
    shape?_eq hpos hseen tokens
  rw [← htext] at hb hshape
  rw [act?, ofState_pos, hpos, hb]
  show ((ofState tokens here).shape? (bytes text) (byteChar b)).bind _ = _
  rw [hshape, Option.bind_some, read?_eq h]

theorem act?_end (h : Reaches (.initial text) text tokens here []) :
    (ofState tokens here).act? (bytes text) = some (.done ⟨tokens, endError here⟩) := by
  have hpos : here.pos = width text := h.pos_eq (List.append_nil text).symm
  rw [act?, ofState_pos, hpos, List.getElem?_eq_none (by simp)]
  rfl

end

end Cursor

end Scanner

end YamlStyle
