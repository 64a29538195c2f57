import YamlStyle.Proofs.LineEnding.Crlf
import YamlStyle.Proofs.Scanner.LineStart
import YamlStyle.Proofs.Scanner.Lockstep
import YamlStyle.Proofs.Scanner.Lookahead

/-!
# The scanner under CR LF

The scanner reads a text and the same text under CR LF in lockstep. Each step sees the same shape, and
where it takes some characters of the one text it takes what `crlf` makes of them of the other.
`Scales` is that relation between two lengths; it is shown for the shapes that can hold a break, the
quoted scalars and the block scalars, and it is plain for those that stay on their line.

The one character at which the steps differ is LF itself, which the other side reads as CR and takes
the LF along.
-/

set_option autoImplicit false

namespace YamlStyle

namespace Scanner

/-! ## Lengths -/

/-- The first `n` characters of a text are the first `n'` of the text under CR LF. -/
def Scales (text : Text) (n n' : Nat) : Prop :=
  ∃ taken left, text = taken ++ left ∧ n = taken.length ∧ n' = (crlf taken).length

namespace Scales

variable {text : Text} {n n' : Nat}

theorem zero (text : Text) : Scales text 0 0 := ⟨[], text, rfl, rfl, rfl⟩

theorem take (h : Scales text n n') : (crlf text).take n' = crlf (text.take n) := by
  obtain ⟨taken, left, rfl, rfl, rfl⟩ := h
  rw [crlf_append, List.take_left, List.take_left]

theorem drop (h : Scales text n n') : (crlf text).drop n' = crlf (text.drop n) := by
  obtain ⟨taken, left, rfl, rfl, rfl⟩ := h
  rw [crlf_append, List.drop_left, List.drop_left]

theorem eq_zero_iff (h : Scales text n n') : n = 0 ↔ n' = 0 := by
  obtain ⟨taken, left, -, rfl, rfl⟩ := h
  rw [List.length_eq_zero_iff, List.length_eq_zero_iff, crlf_eq_nil_iff]

theorem append (h : Scales text n n') (front : Text) :
    Scales (front ++ text) (front.length + n) ((crlf front).length + n') := by
  obtain ⟨taken, left, rfl, rfl, rfl⟩ := h
  exact ⟨front ++ taken, left, (List.append_assoc ..).symm, by simp, by simp⟩

/-- What stays on the first line scales by nothing. -/
theorem of_le (h : n ≤ (lineContent text).length) : Scales text n n := by
  have hinit : text.take n <+: lineContent text := by
    refine List.prefix_of_prefix_length_le (List.take_prefix n text) (List.takeWhile_prefix _) ?_
    exact Nat.le_trans (List.length_take_le n text) h
  have hbreak : ∀ c ∈ text.take n, isBreak c = false :=
    fun c hc => isBreak_of_mem_lineContent (hinit.subset hc)
  have hlength : n = (text.take n).length := by
    have := (List.takeWhile_prefix (l := text) (!isBreak ·)).length_le
    rw [List.length_take, Nat.min_eq_left (Nat.le_trans h this)]
  exact ⟨text.take n, text.drop n, (List.take_append_drop n text).symm, hlength,
    by rw [crlf_of_no_break hbreak, ← hlength]⟩

end Scales

/-! ## The guards -/

variable {rest : Text}

theorem isSeparated_crlf (h : Unix rest) : isSeparated (crlf rest) = isSeparated rest := by
  cases h with
  | nil => rfl
  | lf _ => rfl
  | other hc _ => rw [crlf_other hc, isSeparated, isSeparated]

theorem endsKey_crlf (h : Unix rest) (inFlow : Bool) :
    endsKey inFlow (crlf rest) = endsKey inFlow rest := by
  cases h with
  | nil => rfl
  | lf _ => rfl
  | other hc _ => rw [crlf_other hc]; rfl

theorem isMarker_crlf {mark : Char} (hmark : isBreak mark = false) (c : Char) (h : Unix rest) :
    isMarker mark c (crlf rest) = isMarker mark c rest := by
  have hbreak : ∀ b, isBreak b = true → (b == mark) = false := by
    intro b hb
    refine beq_eq_false_iff_ne.mpr ?_
    rintro rfl
    exact absurd (hb.symm.trans hmark) (by simp)
  have hcr := hbreak '\r' (by decide)
  have hlf := hbreak '\n' (by decide)
  cases h with
  | nil => rfl
  | @lf rest _ => cases rest <;> simp [isMarker, hcr, hlf]
  | @other d rest hd hrest =>
    rw [crlf_other hd]
    cases hrest with
    | nil => rfl
    | lf _ => simp [isMarker, hcr, hlf]
    | @other e tail he htail => rw [crlf_other he, isMarker, isMarker, isSeparated_crlf htail]

/-! ## The shapes -/

theorem plainLength_crlf (h : Unix rest) (inFlow : Bool) (previous : Char) :
    plainLength inFlow previous (crlf rest) = plainLength inFlow previous rest := by
  induction h generalizing previous with
  | nil => rfl
  | lf _ _ =>
    rw [crlf_lf, plainLength_of_isBreak (by decide), plainLength_of_isBreak (by decide)]
  | @other c rest hc hrest ih =>
    rw [crlf_other hc, plainLength, plainLength, stopsPlain, stopsPlain, endsKey_crlf hrest, ih]

/-- What holds behind a piece of the text holds with the piece in front. -/
theorem Scales.map_append {a b : Option Nat} (h : Option.Rel (Scales rest) a b) (front : Text) :
    Option.Rel (Scales (front ++ rest)) (a.map (· + front.length))
      (b.map (· + (crlf front).length)) := by
  cases h with
  | none => exact .none
  | some h =>
    refine .some ?_
    show Scales (front ++ rest) (_ + front.length) (_ + (crlf front).length)
    rw [Nat.add_comm, Nat.add_comm _ (crlf front).length]
    exact h.append front

theorem Scales.map_other {c : Char} (hc : isBreak c = false) {a b : Option Nat}
    (h : Option.Rel (Scales rest) a b) :
    Option.Rel (Scales (c :: rest)) (a.map (· + 1)) (b.map (· + 1)) := by
  have hmap := Scales.map_append h [c]
  rwa [crlf_other hc] at hmap

theorem scales_singleQuotedLength? (h : Unix rest) :
    Option.Rel (Scales rest) (singleQuotedLength? rest) (singleQuotedLength? (crlf rest)) := by
  have hquote : isBreak '\'' = false := by decide
  fun_induction singleQuotedLength? rest with
  | case1 => exact .none
  | case2 rest ih =>
    rw [crlf_other hquote, crlf_other hquote, singleQuotedLength?]
    exact Scales.map_append (ih h.of_cons.of_cons) ['\'', '\'']
  | case3 rest hne =>
    have hhead : (crlf rest).head? ≠ some '\'' := by
      cases h.of_cons with
      | nil => simp
      | lf _ => simp
      | @other d tail hd _ =>
        rw [crlf_other hd]
        intro hq
        exact hne tail (by rw [Option.some.inj hq])
    rw [crlf_other hquote, singleQuotedLength?_closing hhead]
    exact .some (.append (.zero rest) ['\''])
  | case4 c rest h₁ h₂ ih =>
    have hc : c ≠ '\'' := fun hq => h₂ hq
    cases h with
    | lf hrest =>
      rw [crlf_lf, singleQuotedLength?_other (by decide), singleQuotedLength?_other (by decide),
        Option.map_map]
      exact Scales.map_append (ih hrest) ['\n']
    | other hbreak hrest =>
      rw [crlf_other hbreak, singleQuotedLength?_other hc]
      exact Scales.map_other hbreak (ih hrest)

/-- A backslash takes the CR of a CR LF along, and the LF is then a character like any other. -/
theorem scales_doubleQuotedLength? (h : Unix rest) :
    Option.Rel (Scales rest) (doubleQuotedLength? rest) (doubleQuotedLength? (crlf rest)) := by
  have hquote : isBreak '"' = false := by decide
  have hescape : isBreak '\\' = false := by decide
  fun_induction doubleQuotedLength? rest with
  | case1 => exact .none
  | case2 => exact .none
  | case3 d rest ih =>
    rw [crlf_other hescape]
    cases h.of_cons with
    | lf hrest =>
      rw [crlf_lf, doubleQuotedLength?, doubleQuotedLength?_other (by decide) (by decide),
        Option.map_map]
      exact Scales.map_append (ih hrest) ['\\', '\n']
    | other hbreak hrest =>
      rw [crlf_other hbreak, doubleQuotedLength?]
      have hmap := Scales.map_append (ih hrest) ['\\', d]
      rwa [crlf_other hescape, crlf_other hbreak] at hmap
  | case4 rest =>
    rw [crlf_other hquote, doubleQuotedLength?]
    exact .some (.append (.zero rest) ['"'])
  | case5 c rest h₁ h₂ h₃ ih =>
    have hc := ne_escape h₁ h₂
    cases h with
    | lf hrest =>
      rw [crlf_lf, doubleQuotedLength?_other (by decide) (by decide),
        doubleQuotedLength?_other (by decide) (by decide), Option.map_map]
      exact Scales.map_append (ih hrest) ['\n']
    | other hbreak hrest =>
      rw [crlf_other hbreak, doubleQuotedLength?_other hc (fun hq => h₃ hq)]
      exact Scales.map_other hbreak (ih hrest)

theorem scales_quotedLength? (quote : Quote) (h : Unix rest) :
    Option.Rel (Scales rest) (quotedLength? quote rest) (quotedLength? quote (crlf rest)) := by
  cases quote with
  | single => exact scales_singleQuotedLength? h
  | double => exact scales_doubleQuotedLength? h

theorem hollowFirst_crlf (h : Unix rest) : hollowFirst (crlf rest) = hollowFirst rest := by
  rw [hollowFirst, h.lineContent_crlf, hollowFirst]

/-- The body of a block scalar, with the ending `above` pending, takes the same lines. -/
theorem scales_bodyFrom {text : Text} (h : Unix text) (indent : Nat) (above : Text) :
    Scales (above ++ text) (bodyFrom indent above.length text)
      (bodyFrom indent (crlf above).length (crlf text)) := by
  induction text using line_induction generalizing above with
  | nil => simpa using Scales.zero above
  | line text hne ih =>
    -- The ending of this line is pending when the body goes on below it.
    have hbelow := ih h.nextLines (lineEnding text).text
    have hline := hbelow.append (above ++ lineContent text)
    rw [List.append_assoc, line_append, crlf_append, crlf_lineContent, List.length_append,
      List.length_append] at hline
    rw [bodyFrom_of_ne_nil _ _ hne, bodyFrom_of_ne_nil _ _ (crlf_ne_nil hne), hollowFirst_crlf h,
      h.lineContent_crlf, h.lineEnding_crlf, h.lineBelow_crlf, h.text_toCrlf]
    generalize bodyFrom indent (lineEnding text).text.length (lineBelow text) = n at hbelow hline ⊢
    generalize bodyFrom indent (crlf (lineEnding text).text).length (crlf (lineBelow text)) = n'
      at hbelow hline ⊢
    split
    · -- A hollow line belongs to the body if something below it does, on either side.
      cases n with
      | zero =>
        rw [hbelow.eq_zero_iff.mp rfl]
        exact .zero _
      | succ n =>
        cases n' with
        | zero => exact absurd (hbelow.eq_zero_iff.mpr rfl) (Nat.succ_ne_zero n)
        | succ n' => exact hline
    · split
      · exact hline
      · exact .zero _

theorem scales_blockLength (h : Unix rest) (indent : Nat) :
    Scales rest (blockLength indent rest) (blockLength indent (crlf rest)) := by
  have hbody := (scales_bodyFrom h.nextLines indent (lineEnding rest).text).append (lineContent rest)
  rw [line_append, crlf_lineContent] at hbody
  rwa [blockLength_eq, blockLength_eq, h.lineContent_crlf, h.lineEnding_crlf, h.lineBelow_crlf,
    h.text_toCrlf]

/-! ## A step -/

/-- Two answers of a step: the same fault, or lexemes of one kind that take the same of the text. -/
inductive Alike (rest : Text) : Except ScanFault Lexeme → Except ScanFault Lexeme → Prop
  | error (fault : ScanFault) : Alike rest (.error fault) (.error fault)
  | layout {n n' : Nat} : Scales rest n n' → Alike rest (.ok (.layout n)) (.ok (.layout n'))
  | token {n n' : Nat} (kind : TokenKind) : Scales rest n n' →
      Alike rest (.ok (.token kind n)) (.ok (.token kind n'))

theorem alike_closeFlow (rest : Text) (s : State) (bracket : Bracket) :
    Alike rest (closeFlow s bracket) (closeFlow s bracket) := by
  unfold closeFlow
  split
  · exact .error _
  · split
    · exact .token _ (.zero rest)
    · exact .error _

theorem alike_quotedScalar (quote : Quote) (h : Unix rest) :
    Alike rest (quotedScalar quote rest) (quotedScalar quote (crlf rest)) := by
  have hscales := scales_quotedLength? quote h
  unfold quotedScalar
  generalize quotedLength? quote rest = n at hscales
  generalize quotedLength? quote (crlf rest) = n' at hscales
  cases hscales with
  | none => exact .error _
  | some hscales => exact .token .scalar hscales

/-- **Steps are alike** on a text and on the text under CR LF. -/
theorem alike_lexeme {f : Nat → Nat} {s : State} {c : Char}
    (hstart : (s.mapOffsets f).atLineStart = s.atLineStart) (hc : isBreak c = false)
    (h : Unix rest) : Alike rest (lexeme s c rest) (lexeme (s.mapOffsets f) c (crlf rest)) := by
  rw [lexeme_eq_read, lexeme_eq_read, shapeAt_congr hstart s.mapOffsets_inFlow (isSeparated_crlf h)
    (endsKey_crlf h) fun _ hmark => isMarker_crlf (isBreak_of_mem_markerChars hmark) c h]
  cases hshape : shapeAt s c rest with
  | blanks =>
    have hbreak := fun d (hd : isBreak d = true) => not_isBlank_of_isBreak hd
    rw [Shape.read, Shape.read, h.takeWhile_crlf hbreak]
    exact .layout (.of_le (length_takeWhile_le hbreak rest))
  | ending =>
    rw [isBreak_of_shapeAt hshape] at hc
    exact absurd hc (by simp)
  | line kind =>
    rw [Shape.read, Shape.read, lineLength, lineLength, h.lineContent_crlf]
    exact .token kind (.of_le (Nat.le_refl _))
  | marker kind =>
    obtain ⟨mark, hmark, hmarker⟩ := isMarker_of_shapeAt hshape
    exact .token kind (.of_le (two_le_of_isMarker hmark hmarker))
  | indicator kind => exact .token kind (.zero rest)
  | closing bracket =>
    rw [Shape.read, Shape.read, closeFlow_mapOffsets]
    exact alike_closeFlow rest s bracket
  | name kind =>
    have hbreak : ∀ d, isBreak d = true → (!(isBlank d || isBreak d || isFlowIndicator d)) = false :=
      fun d hd => by simp [hd]
    rw [Shape.read, Shape.read, nameLength, nameLength, h.takeWhile_crlf hbreak]
    exact .token kind (.of_le (length_takeWhile_le hbreak rest))
  | quoted quote =>
    exact alike_quotedScalar quote h
  | block => exact .token .blockScalar (scales_blockLength h s.indent)
  | plain =>
    rw [Shape.read, Shape.read, s.mapOffsets_inFlow, plainLength_crlf h]
    exact .token .scalar (.of_le (plainLength_le ..))

/-! ## Runs -/

theorem lastLine?_crlf {text : Text} (h : Unix text) :
    lastLine? (crlf text) = (lastLine? text).map fun (front, last) => (crlf front, crlf last) := by
  induction h with
  | nil => rfl
  | lf _ ih =>
    rw [crlf_lf, lastLine?, lastLine?, lastLine?, ih]
    cases lastLine? _ <;> simp [isBreak]
  | @other c rest hc _ ih =>
    rw [crlf_other hc, lastLine?, lastLine?, ih]
    cases lastLine? rest <;> simp [hc, crlf_other hc]

variable {whole : Text} {s : State} {above line left : Text}

theorem Reads.crlfOffset_lineStart (h : Reads whole s above line left) :
    crlfOffset whole s.lineStart = width (crlf above) := by
  rw [h.lineStart, h.whole, crlfOffset_width]

theorem Reads.crlfOffset_pos (h : Reads whole s above line left) :
    crlfOffset whole s.pos = width (crlf above) + width (crlf line) := by
  rw [h.pos, h.whole, ← List.append_assoc, crlfOffset_width, crlf_append, width_append]

/-- The counterpart of a place further on. -/
theorem Reads.crlfOffset_add {piece back : Text} (h : Reads whole s above line (piece ++ back)) :
    crlfOffset whole (s.pos + width piece) = crlfOffset whole s.pos + width (crlf piece) := by
  have hwhole : whole = (above ++ line ++ piece) ++ back := by simp [h.whole]
  rw [h.crlfOffset_pos, h.pos, ← width_append, hwhole, crlfOffset_width]
  simp only [crlf_append, width_append]

theorem Reads.atLineStart_mapOffsets (h : Reads whole s above line left) :
    (s.mapOffsets (crlfOffset whole)).atLineStart = s.atLineStart := by
  have hline := width_crlf_eq_zero_iff line
  rw [State.atLineStart, State.atLineStart, State.mapOffsets, Bool.eq_iff_iff, beq_iff_eq, beq_iff_eq]
  simp only
  rw [h.crlfOffset_pos, h.crlfOffset_lineStart, h.pos, h.lineStart, width_append]
  omega

/-- The counterpart of a state moves along with it. -/
theorem Reads.advance_mapOffsets {taken : Text} (h : Reads whole s above line (taken ++ left))
    (hunix : Unix (taken ++ left)) :
    (s.mapOffsets (crlfOffset whole)).advance (crlf taken) (crlf left) =
      (s.advance taken left).mapOffsets (crlfOffset whole) := by
  obtain ⟨htaken, hleft⟩ := hunix.of_append
  unfold State.advance
  rw [lastLine?_crlf htaken]
  cases hlast : lastLine? taken with
  | none => simp only [Option.map_none, State.mapOffsets, h.crlfOffset_add]
  | some cut =>
    obtain ⟨front, last⟩ := cut
    have hpieces : taken ++ left = front ++ (last ++ left) := by
      rw [lastLine?_append hlast, List.append_assoc]
    have hfront := (hpieces ▸ h).crlfOffset_add
    have hindent := (hpieces ▸ hunix).of_append.2.leadingSpaces_crlf
    rw [crlf_append] at hindent
    simp only [Option.map_some, State.mapOffsets, h.crlfOffset_add, hfront, hindent]

/-- A state and the text left in it, and the same under CR LF. -/
structure Counterpart (whole : Text) (s : State) (text : Text) (s' : State) (text' : Text) :
    Prop where
  reads : ∃ above line, Reads whole s above line text
  state : s' = s.mapOffsets (crlfOffset whole)
  text : text' = crlf text

theorem Reads.unix (h : Reads whole s above line left) (hwhole : Unix whole) : Unix left :=
  (h.whole ▸ hwhole).of_append.2.of_append.2

/-- Lexemes of one kind that take the same of the text lead to counterparts. -/
theorem Reads.after {taken : Text} (h : Reads whole s above line (taken ++ left))
    (hunix : Unix whole) {found found' : Lexeme} (hkind : found'.kind? = found.kind?) :
    Counterpart whole (s.after found taken left) left
      ((s.mapOffsets (crlfOffset whole)).after found' (crlf taken) (crlf left)) (crlf left) := by
  cases found with
  | layout n =>
    cases found' with
    | layout n' => exact ⟨h.advance, h.advance_mapOffsets (h.unix hunix), rfl⟩
    | token kind' n' => exact absurd hkind (by simp [Lexeme.kind?])
  | token kind n =>
    cases found' with
    | layout n' => exact absurd hkind (by simp [Lexeme.kind?])
    | token kind' n' =>
      obtain rfl : kind' = kind := Option.some.inj hkind
      refine ⟨(h.track kind').advance, ?_, rfl⟩
      rw [State.after, State.mapOffsets_track]
      exact (h.track kind').advance_mapOffsets (h.unix hunix)

theorem Alike.exists_found {rest : Text} {found : Lexeme} {answer : Except ScanFault Lexeme}
    (h : Alike rest (.ok found) answer) :
    ∃ found', answer = .ok found' ∧ found'.kind? = found.kind? ∧
      Scales rest found.length found'.length := by
  cases h with
  | layout hscales => exact ⟨_, rfl, rfl, hscales⟩
  | token kind hscales => exact ⟨_, rfl, rfl, hscales⟩

theorem Alike.eq_error {rest : Text} {fault : ScanFault} {answer : Except ScanFault Lexeme}
    (h : Alike rest (.error fault) answer) : answer = .error fault := by
  cases h with
  | error fault => rfl

theorem counterpart_lockstep (hunix : Unix whole) :
    Lockstep (crlfOffset whole) (Counterpart whole) where
  state h := h.state
  stop h := h.text
  fault := by
    rintro s s' c rest text' fault ⟨⟨above, line, hreads⟩, rfl, rfl⟩ hfault
    cases hreads.unix hunix with
    | lf hrest =>
      rw [lexeme_of_isBreak s rest (by decide)] at hfault
      exact absurd hfault (by simp)
    | other hc hrest =>
      have halike := alike_lexeme hreads.atLineStart_mapOffsets hc hrest
      rw [hfault] at halike
      exact ⟨c, crlf rest, crlf_other hc rest, halike.eq_error⟩
  step := by
    rintro s s' c rest text' found ⟨⟨above, line, hreads⟩, rfl, rfl⟩ hfound
    cases hreads.unix hunix with
    | lf hrest =>
      rw [lexeme_of_isBreak s rest (by decide)] at hfound
      obtain rfl := Except.ok.inj hfound
      -- A break by itself here is a CR that takes the LF along there.
      refine ⟨'\r', '\n' :: crlf rest, .layout 1, rfl, ?_, rfl, ?_⟩
      · rw [lexeme_of_isBreak _ _ (by decide)]
        rfl
      · have htaken : Reads whole s above line (['\n'] ++ rest) := hreads
        exact htaken.after hunix rfl
    | other hc hrest =>
      have halike := alike_lexeme hreads.atLineStart_mapOffsets hc hrest
      rw [hfound] at halike
      obtain ⟨found', hfound', hkind, hscales⟩ := halike.exists_found
      refine ⟨c, crlf rest, found', crlf_other hc rest, hfound', hkind, ?_⟩
      have htaken : Reads whole s above line
          ((c :: rest.take found.length) ++ rest.drop found.length) := by
        rw [List.cons_append, List.take_append_drop]
        exact hreads
      rw [hscales.take, hscales.drop, ← crlf_other hc]
      exact htaken.after hunix hkind

end Scanner

/-- **The scanner finds the same under CR LF**, at the counterparts of the offsets. -/
theorem yamlScanner_crlf {text : Text} (h : Unix text) :
    yamlScanner (crlf text) = (yamlScanner text).mapOffsets (crlfOffset text) := by
  have hzero : crlfOffset text 0 = 0 := crlfOffset_width [] text
  refine (Scanner.counterpart_lockstep h).run ⟨⟨[], [], rfl, rfl, rfl⟩, ?_, rfl⟩
  rw [Scanner.State.initial, h.leadingSpaces_crlf, Scanner.State.mapOffsets]
  simp only [Scanner.State.initial, hzero]
  rfl

end YamlStyle
