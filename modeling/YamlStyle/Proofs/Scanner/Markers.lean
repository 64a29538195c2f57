import Mathlib.Data.List.Chain
import YamlStyle.Proofs.Scanner.Brackets
import YamlStyle.Proofs.Scanner.Comments
import YamlStyle.Proofs.Scanner.LineStart
import YamlStyle.Proofs.Scanner.Lookahead

/-!
# Where document markers are found

A document marker counts at the beginning of a line only, and the beginning of a line is where the
scanner takes it to be. `yamlScanner_markers` says that no marker is lost and none is made up by this: the
markers are where `lines` has a line that begins with one, up to the place where the scan stopped, unless a
quoted scalar that runs over several lines has it inside.

No other token can have it inside. A token with a break in it is a quoted scalar or a block scalar
(`of_isBreak_mem`), and in a block scalar a break is followed by another one or by a space
(`isChain_block`), as every line of the body is indented or empty.
-/

set_option autoImplicit false

namespace YamlStyle

namespace Scanner

/-! ## Breaks inside tokens -/

theorem char_of_shapeAt_quoted {s : State} {c : Char} {rest : Text} {quote : Quote}
    (h : shapeAt s c rest = .quoted quote) : c = quote.char := by
  revert h
  fun_cases shapeAt s c rest
  case case16 =>
    intro h
    apply Quote.eq_char_of_ofChar?
    rwa [← Shape.quoted.inj h]
  all_goals exact fun h => Shape.noConfusion h

variable {s : State} {c : Char} {rest : Text} {kind : TokenKind} {n : Nat}

/-- A token that is no quoted scalar and no block scalar stays within its line. -/
theorem le_lineContent_of_lexeme (h : lexeme s c rest = .ok (.token kind n)) :
    n ≤ (lineContent rest).length ∨ (kind = .scalar ∧ ∃ quote : Quote, c = quote.char) ∨
      (kind = .blockScalar ∧ n = blockLength s.indent rest) := by
  rw [lexeme_eq_read] at h
  generalize hshape : shapeAt s c rest = shape at h
  cases shape with
  | blanks | ending => exact absurd h (by simp [Shape.read])
  | line kind =>
    obtain ⟨-, rfl⟩ := Lexeme.token.inj (Except.ok.inj h)
    exact Or.inl (Nat.le_refl _)
  | marker kind =>
    obtain ⟨-, rfl⟩ := Lexeme.token.inj (Except.ok.inj h)
    obtain ⟨mark, hmark, hmarker⟩ := isMarker_of_shapeAt hshape
    exact Or.inl (two_le_of_isMarker hmark hmarker)
  | indicator kind =>
    obtain ⟨-, rfl⟩ := Lexeme.token.inj (Except.ok.inj h)
    exact Or.inl (Nat.zero_le _)
  | closing bracket =>
    obtain ⟨-, rfl⟩ := Lexeme.token.inj (eq_of_closeFlow h)
    exact Or.inl (Nat.zero_le _)
  | name kind =>
    obtain ⟨-, rfl⟩ := Lexeme.token.inj (Except.ok.inj h)
    exact Or.inl (nameLength_le rest)
  | quoted quote =>
    obtain ⟨m, -, hfound⟩ := exists_of_quotedScalar h
    exact Or.inr (Or.inl ⟨(Lexeme.token.inj hfound).1, quote, char_of_shapeAt_quoted hshape⟩)
  | block =>
    obtain ⟨rfl, rfl⟩ := Lexeme.token.inj (Except.ok.inj h)
    exact Or.inr (Or.inr ⟨rfl, rfl⟩)
  | plain =>
    obtain ⟨-, rfl⟩ := Lexeme.token.inj (Except.ok.inj h)
    exact Or.inl (plainLength_le s.inFlow c rest)

theorem of_isBreak_mem (h : lexeme s c rest = .ok (.token kind n)) {b : Char} (hb : b ∈ rest.take n)
    (hbreak : isBreak b = true) :
    (kind = .scalar ∧ ∃ quote : Quote, c = quote.char) ∨
      (kind = .blockScalar ∧ n = blockLength s.indent rest) := by
  rcases le_lineContent_of_lexeme h with hle | hlines
  · -- Within its line there would be no break.
    rw [← line_append rest, List.take_append_of_le_length hle] at hb
    rw [isBreak_of_mem_lineContent (List.mem_of_mem_take hb)] at hbreak
    exact absurd hbreak (by simp)
  · exact hlines

/-! ## Block scalars -/

/-- If a break stands before `d`, then `d` is a break or a space. -/
def Indents (b d : Char) : Prop := isBreak b = true → isBreak d = true ∨ d = ' '

theorem isChain_of_flat {text : Text} (h : ∀ c ∈ text, isBreak c = false) : text.IsChain Indents := by
  induction text with
  | nil => exact .nil
  | cons c text ih =>
    apply List.isChain_cons.mpr
    constructor
    · intro d _ hc
      rw [h c List.mem_cons_self] at hc
      exact absurd hc (by simp)
    · exact ih fun d hd => h d (List.mem_cons_of_mem _ hd)

theorem isChain_of_breaks {text : Text} (h : ∀ c ∈ text, isBreak c = true) : text.IsChain Indents := by
  induction text with
  | nil => exact .nil
  | cons c text ih =>
    have htext : ∀ d ∈ text, isBreak d = true := fun d hd => h d (List.mem_cons_of_mem _ hd)
    apply List.isChain_cons.mpr
    constructor
    · intro d hd _
      exact Or.inl (htext d (List.mem_of_mem_head? hd))
    · exact ih htext

theorem isBreak_of_head?_lineRest {text : Text} {d : Char} (h : d ∈ (lineRest text).head?) :
    isBreak d = true := by
  have hhead := List.head?_dropWhile_not (fun c => !isBreak c) text
  rw [← lineRest, Option.mem_def.mp h] at hhead
  simpa using hhead

theorem eq_space_of_head? {content : Text} (h : 0 < leadingSpaces content) {d : Char}
    (hd : d ∈ content.head?) : d = ' ' := by
  cases content with
  | nil => exact absurd hd (by simp)
  | cons c content =>
    obtain rfl := Option.some.inj hd
    by_contra hne
    simp [leadingSpaces, hne] at h

/-- Endings, a line that is indented, and what comes below it. -/
theorem isChain_line {above text : Text} (habove : ∀ c ∈ above, isBreak c = true)
    (hcontent : ∀ d ∈ (lineContent text).head?, d = ' ')
    (hbelow : (((lineEnding text).text ++ lineBelow text).take n).IsChain Indents) :
    ((above ++ text).take (above.length + (lineContent text).length + n)).IsChain Indents := by
  rw [take_body]
  apply List.isChain_append.mpr
  refine ⟨?_, hbelow, ?_⟩
  · apply List.isChain_append.mpr
    refine ⟨isChain_of_breaks habove, isChain_of_flat fun c hc => isBreak_of_mem_lineContent hc, ?_⟩
    intro b _ d hd _
    exact Or.inr (hcontent d hd)
  · intro b _ d hd _
    rw [lineEnding_append_lineBelow, List.head?_take] at hd
    split at hd
    · exact absurd hd (by simp)
    · exact Or.inl (isBreak_of_head?_lineRest hd)

/-- The body of a block scalar, with the ending `above` pending. -/
theorem isChain_body (indent : Nat) {above : Text} (habove : ∀ c ∈ above, isBreak c = true)
    (text : Text) : ((above ++ text).take (bodyFrom indent above.length text)).IsChain Indents := by
  induction text using line_induction generalizing above with
  | nil =>
    rw [bodyFrom_nil, List.take_zero]
    exact .nil
  | line text hne ih =>
    have hending : ∀ c ∈ (lineEnding text).text, isBreak c = true := fun c hc => isBreak_of_mem_ending hc
    have hbelow := ih hending
    rw [bodyFrom_of_ne_nil _ _ hne]
    split
    · rename_i hhollow
      split
      · rw [List.take_zero]
        exact .nil
      · rename_i m hm
        rw [hm] at hbelow
        refine isChain_line habove ?_ hbelow
        intro d hd
        apply eq_space_of_head? _ hd
        rw [hollowFirst, beq_iff_eq] at hhollow
        rw [hhollow]
        exact List.length_pos_of_mem (List.mem_of_mem_head? hd)
    · split
      · rename_i hindent
        refine isChain_line habove ?_ hbelow
        intro d hd
        exact eq_space_of_head? (Nat.zero_lt_of_lt hindent) hd
      · rw [List.take_zero]
        exact .nil

/-- In a block scalar every line of the body is indented or empty. -/
theorem isChain_block (indent : Nat) {c : Char} (hc : isBreak c = false) (rest : Text) :
    (c :: rest.take (blockLength indent rest)).IsChain Indents := by
  have htake := take_body [] rest (bodyFrom indent (lineEnding rest).text.length (lineBelow rest))
  rw [List.nil_append, List.nil_append, List.length_nil, Nat.zero_add, ← blockLength_eq] at htake
  have hheader : ∀ d ∈ c :: lineContent rest, isBreak d = false := by
    intro d hd
    rcases List.mem_cons.mp hd with rfl | hd
    · exact hc
    · exact isBreak_of_mem_lineContent hd
  rw [htake, ← List.cons_append]
  apply List.isChain_append.mpr
  refine ⟨isChain_of_flat hheader, isChain_body indent (fun d hd => isBreak_of_mem_ending hd) _, ?_⟩
  intro b hb d _ hbreak
  rw [hheader b (List.mem_of_getLast? hb)] at hbreak
  exact absurd hbreak (by simp)

/-! ## Steps that read a marker or a directive -/

/-- The two document markers, by their characters. -/
def markerKinds : List (Char × TokenKind) := [('-', .documentStart), ('.', .documentEnd)]

theorem of_mem_markerKinds {mark : Char} (h : (mark, kind) ∈ markerKinds) :
    isLayout mark = false ∧ mark.utf8Size = 1 := by
  simp only [markerKinds, List.mem_cons, Prod.mk.injEq, List.not_mem_nil, or_false] at h
  rcases h with ⟨rfl, -⟩ | ⟨rfl, -⟩ <;> decide

theorem isMarker_iff {mark : Char} : isMarker mark c rest = true ↔
    c = mark ∧ ∃ after, rest = mark :: mark :: after ∧ isSeparated after = true := by
  constructor
  · intro h
    unfold isMarker at h
    split at h
    · simp only [Bool.and_eq_true, beq_iff_eq] at h
      obtain ⟨⟨⟨rfl, rfl⟩, rfl⟩, hseparated⟩ := h
      exact ⟨rfl, _, rfl, hseparated⟩
    · exact absurd h (by simp)
  · rintro ⟨rfl, after, rfl, hseparated⟩
    simp [isMarker, hseparated]

theorem isSeparated_iff {text : Text} :
    isSeparated text = true ↔ ∀ d ∈ text.head?, d ∈ [' ', '\t', '\n', '\r'] := by
  cases text with
  | nil => simp [isSeparated]
  | cons c text => simp [isSeparated, isBlank, isBreak, or_assoc]

theorem lexeme_of_marker {mark : Char} (hmark : (mark, kind) ∈ markerKinds) {after : Text}
    (hstart : s.atLineStart = true) (hafter : isSeparated after = true) :
    lexeme s mark (mark :: mark :: after) = .ok (.token kind 2) := by
  have hmarker : isMarker mark mark (mark :: mark :: after) = true :=
    isMarker_iff.mpr ⟨rfl, after, rfl, hafter⟩
  simp only [markerKinds, List.mem_cons, Prod.mk.injEq, List.not_mem_nil, or_false] at hmark
  rcases hmark with ⟨rfl, rfl⟩ | ⟨rfl, rfl⟩
  · simp [lexeme, isBlank, isBreak, hstart, hmarker]
  · simp [lexeme, isBlank, isBreak, hstart, hmarker, isMarker_of_ne]

/-- The kinds of token that are read at the beginning of a line only. -/
def needsLineStart : TokenKind → Bool
  | .documentStart | .documentEnd | .directive => true
  | _ => false

theorem Bracket.needsLineStart_kinds (b : Bracket) :
    needsLineStart b.openKind = false ∧ needsLineStart b.closeKind = false := by
  cases b <;> decide

/-- What a step has seen that reads such a token. -/
theorem of_needsLineStart (h : lexeme s c rest = .ok (.token kind n)) (hkind : needsLineStart kind = true) :
    s.atLineStart = true ∧
      ((kind = .documentStart ∧ isMarker '-' c rest = true ∧ n = 2) ∨
        (kind = .documentEnd ∧ isMarker '.' c rest = true ∧ n = 2) ∨
          (kind = .directive ∧ c = '%' ∧ n = lineLength rest)) := by
  revert h
  fun_cases lexeme s c rest
  case case4 hc =>
    intro h
    obtain ⟨rfl, rfl⟩ := Lexeme.token.inj (Except.ok.inj h)
    obtain ⟨hstart, hmarker⟩ := Bool.and_eq_true _ _ |>.mp hc
    exact ⟨hstart, Or.inl ⟨rfl, hmarker, rfl⟩⟩
  case case5 hc =>
    intro h
    obtain ⟨rfl, rfl⟩ := Lexeme.token.inj (Except.ok.inj h)
    obtain ⟨hstart, hmarker⟩ := Bool.and_eq_true _ _ |>.mp hc
    exact ⟨hstart, Or.inr (Or.inl ⟨rfl, hmarker, rfl⟩)⟩
  case case6 hc =>
    intro h
    obtain ⟨rfl, rfl⟩ := Lexeme.token.inj (Except.ok.inj h)
    obtain ⟨hstart, hpercent⟩ := Bool.and_eq_true _ _ |>.mp hc
    exact ⟨hstart, Or.inr (Or.inr ⟨rfl, beq_iff_eq.mp hpercent, rfl⟩)⟩
  case case10 =>
    intro h
    rw [← (Lexeme.token.inj (Except.ok.inj h)).1, (Bracket.needsLineStart_kinds _).1] at hkind
    exact absurd hkind (by simp)
  case case11 =>
    intro h
    rw [(Lexeme.token.inj (eq_of_closeFlow h)).1, (Bracket.needsLineStart_kinds _).2] at hkind
    exact absurd hkind (by simp)
  case case16 =>
    intro h
    obtain ⟨m, -, hfound⟩ := exists_of_quotedScalar h
    rw [(Lexeme.token.inj hfound).1] at hkind
    exact absurd hkind (by simp [needsLineStart])
  all_goals
    intro h
    cases h <;> exact absurd hkind (by simp [needsLineStart])

theorem marker_of_lexeme {mark : Char} (hmark : (mark, kind) ∈ markerKinds)
    (h : lexeme s c rest = .ok (.token kind n)) :
    s.atLineStart = true ∧ isMarker mark c rest = true ∧ n = 2 := by
  simp only [markerKinds, List.mem_cons, Prod.mk.injEq, List.not_mem_nil, or_false] at hmark
  rcases hmark with ⟨rfl, rfl⟩ | ⟨rfl, rfl⟩
  · simpa using of_needsLineStart h rfl
  · simpa using of_needsLineStart h rfl

end Scanner

/-! ## Line starts inside tokens -/

/-- A raw token is a quoted scalar that runs over several lines. -/
def RawToken.IsQuotedLines (t : RawToken) (text : Text) : Prop :=
  t.kind = .scalar ∧ ∃ (quote : Quote) (body : Text), t.Spells text (quote.char :: body) ∧
    ∃ b ∈ body, isBreak b = true

variable {text : Text}

/-- A line that begins inside a token, and not with layout, begins inside a quoted scalar. -/
theorem isQuotedLines_of_inside {u : RawToken} (hu : u ∈ (yamlScanner text).tokens) {front back : Text}
    {c : Char} (htext : text = front ++ c :: back) (hfront : front = [] ∨ EndsLine front)
    (hc : isLayout c = false) (hin : u.start < width front ∧ width front < u.stop) :
    u.IsQuotedLines text := by
  obtain ⟨before, s, d, rest, n, hread, hfound, hstart, hstop⟩ := exists_read hu
  have hpiece : text = before ++ ((d :: rest.take n) ++ rest.drop n) := by
    rw [hread, List.cons_append, List.take_append_drop]
  -- What was read of the token up to the line start ends a line.
  obtain ⟨inner, rfl, hinner⟩ :=
    exists_append_of_width_le (hpiece.symm.trans htext) (Nat.le_of_lt (hstart ▸ hin.1))
  have hne : inner ≠ [] := by
    rintro rfl
    rw [List.append_nil] at hin
    omega
  obtain ⟨init, b, rfl, hb⟩ : EndsLine inner := by
    rcases hfront with hnil | hends
    · exact absurd (List.append_eq_nil_iff.mp hnil).2 hne
    · exact hends.of_append _ hne
  obtain ⟨m, hm⟩ : ∃ m, d :: rest.take n = init ++ [b] ++ c :: m := by
    rcases char_append_cases hinner with hm | ⟨more, hmore, -⟩
    · exact hm
    · rw [hstop, hmore] at hin
      simp only [width_append] at hin
      omega
  have hd : isBreak d = false := (Bool.or_eq_false_iff.mp (Scanner.isLayout_of_token hfound)).2
  have hmem : b ∈ rest.take n := by
    have hmem : b ∈ d :: rest.take n := by
      rw [hm]
      simp
    rcases List.mem_cons.mp hmem with rfl | hmem
    · exact absurd (hd.symm.trans hb) (by simp)
    · exact hmem
  rcases Scanner.of_isBreak_mem hfound hmem hb with ⟨hkind, quote, rfl⟩ | ⟨-, hblock⟩
  · exact ⟨hkind, quote, rest.take n, ⟨before, rest.drop n, hpiece, hstart, hstop⟩, b, hmem, hb⟩
  · -- In a block scalar the line would be indented.
    have hchain := Scanner.isChain_block s.indent hd rest
    rw [← hblock, hm, List.append_assoc] at hchain
    have hindents : Scanner.Indents b c :=
      List.isChain_iff_forall_rel_of_append_cons_cons.mp hchain rfl
    rcases hindents hb with hbreak | rfl
    · rw [(Bool.or_eq_false_iff.mp hc).2] at hbreak
      exact absurd hbreak (by simp)
    · exact absurd hc (by decide)

/-! ## The theorem -/

/-- At a byte offset a text has three times the character `mark`, and behind it a space, a tab, a break or
nothing. -/
def MarkerAt (text : Text) (mark : Char) (offset : Nat) : Prop :=
  ∃ front after, text = front ++ mark :: mark :: mark :: after ∧ offset = width front ∧
    ∀ d ∈ after.head?, d ∈ [' ', '\t', '\n', '\r']

/-- Which markers and directives a scan that stopped at byte `stop` has found. -/
structure Markers (text : Text) (scan : Scan) (stop : Nat) : Prop where
  /-- The markers are those at the beginning of a line that no quoted scalar has inside. -/
  marks : ∀ mark kind, (mark, kind) ∈ Scanner.markerKinds → ∀ t,
    (t ∈ scan.tokens ∧ t.kind = kind) ↔
      ∃ l ∈ lines text, t = ⟨kind, l.start, l.start + 3⟩ ∧ MarkerAt text mark l.start ∧
        l.start < stop ∧
        ∀ u ∈ scan.tokens, u.IsQuotedLines text → ¬ (u.start < l.start ∧ l.start < u.stop)
  /-- No block scalar has one inside. -/
  blocks : ∀ u ∈ scan.tokens, u.kind = .blockScalar →
    ∀ mark kind, (mark, kind) ∈ Scanner.markerKinds → ∀ l ∈ lines text, MarkerAt text mark l.start →
      ¬ (u.start < l.start ∧ l.start < u.stop)
  /-- A directive is a line. -/
  directives : ∀ t ∈ scan.tokens, t.kind = .directive →
    ∃ l ∈ lines text, t.start = l.start ∧ t.stop = l.stop

theorem exists_line_of_marker {mark : Char} {t : RawToken} (ht : t ∈ (yamlScanner text).tokens)
    (hmark : (mark, t.kind) ∈ Scanner.markerKinds) :
    ∃ l ∈ lines text, t = ⟨t.kind, l.start, l.start + 3⟩ ∧ MarkerAt text mark l.start := by
  obtain ⟨hlayout, hsize⟩ := Scanner.of_mem_markerKinds hmark
  have hbreak := (Bool.or_eq_false_iff.mp hlayout).2
  obtain ⟨before, place, front, c, rest, n, hreaches, htext, hfound, hstart, hstop⟩ := exists_place ht
  obtain ⟨hline, hmarker, rfl⟩ := Scanner.marker_of_lexeme hmark hfound
  obtain ⟨rfl, after, rfl, hafter⟩ := Scanner.isMarker_iff.mp hmarker
  obtain ⟨l, hl, hl_start, -⟩ :=
    exists_line_of_endsLine htext hbreak ((hreaches.atLineStart_iff htext).mp hline)
  have hwidth : width (c :: (c :: c :: after).take 2) = 3 := by simp [hsize]
  refine ⟨l, hl, ?_, front, after, htext, hl_start, Scanner.isSeparated_iff.mp hafter⟩
  rw [hl_start, ← hwidth, ← hstop, ← hstart]

theorem mem_of_marker {mark : Char} {kind : TokenKind} (hmark : (mark, kind) ∈ Scanner.markerKinds)
    {l : Line} (hl : l ∈ lines text) (hmarker : MarkerAt text mark l.start)
    (hstop : l.start < Scanner.stopOffset (.initial text) text)
    (hquoted : ∀ u ∈ (yamlScanner text).tokens, u.IsQuotedLines text →
      ¬ (u.start < l.start ∧ l.start < u.stop)) :
    ⟨kind, l.start, l.start + 3⟩ ∈ (yamlScanner text).tokens := by
  obtain ⟨hlayout, hsize⟩ := Scanner.of_mem_markerKinds hmark
  obtain ⟨front, after, htext, hoffset, hafter⟩ := hmarker
  have hfront := endsLine_of_start hl htext hoffset
  rw [hoffset] at hstop hquoted ⊢
  obtain ⟨u, hu, hle, hlt⟩ := exists_token_of_char htext hlayout hstop
  rcases Nat.lt_or_eq_of_le hle with hinside | hstart
  · have hlines := isQuotedLines_of_inside hu htext hfront hlayout ⟨hinside, hlt⟩
    exact absurd ⟨hinside, hlt⟩ (hquoted u hu hlines)
  · -- The token begins with the marker, and so it is the marker.
    obtain ⟨before, place, front', c, rest, n, hreaches, htext', hfound, hstart', hstop'⟩ :=
      exists_place hu
    obtain ⟨rfl, hleft⟩ :=
      append_inj_of_width_eq (htext.symm.trans htext') (hstart.symm.trans hstart')
    obtain ⟨rfl, rfl⟩ := List.cons.inj hleft
    have hline := (hreaches.atLineStart_iff htext).mpr hfront
    rw [Scanner.lexeme_of_marker hmark hline (Scanner.isSeparated_iff.mpr hafter)] at hfound
    obtain ⟨hkind, rfl⟩ := Scanner.Lexeme.token.inj (Except.ok.inj hfound)
    have hwidth : width (mark :: (mark :: mark :: after).take 2) = 3 := by simp [hsize]
    rw [hkind, ← hwidth, ← hstop', ← hstart']
    exact hu

/-- **Document markers are found at line starts**, and at all of them outside quoted scalars. -/
theorem yamlScanner_markers (text : Text) :
    Markers text (yamlScanner text) (Scanner.stopOffset (.initial text) text) where
  marks mark kind hmark t := by
    constructor
    · rintro ⟨ht, rfl⟩
      obtain ⟨l, hl, htoken, hmarker⟩ := exists_line_of_marker ht hmark
      have hstart : t.start = l.start := by rw [htoken]
      have hextent := extent_of_mem_tokens ht
      refine ⟨l, hl, htoken, hmarker, by omega, ?_⟩
      intro u hu _
      rw [← hstart]
      exact not_inside_of_start (pairwise_tokens text) (fun v hv => (extent_of_mem_tokens hv).1) ht u hu
    · rintro ⟨l, hl, rfl, hmarker, hstop, hquoted⟩
      exact ⟨mem_of_marker hmark hl hmarker hstop hquoted, rfl⟩
  blocks u hu hkind mark kind hmark l hl hmarker hin := by
    obtain ⟨hlayout, -⟩ := Scanner.of_mem_markerKinds hmark
    obtain ⟨front, after, htext, hoffset, -⟩ := hmarker
    have hfront := endsLine_of_start hl htext hoffset
    have hlines := isQuotedLines_of_inside hu htext hfront hlayout (hoffset ▸ hin)
    exact absurd (hkind.symm.trans hlines.1) (by simp)
  directives t ht hkind := by
    obtain ⟨before, place, front, c, rest, n, hreaches, htext, hfound, hstart, hstop⟩ := exists_place ht
    rw [hkind] at hfound
    obtain ⟨hline, hdirective⟩ := Scanner.of_needsLineStart hfound rfl
    obtain ⟨rfl, rfl⟩ : c = '%' ∧ n = Scanner.lineLength rest := by simpa using hdirective
    obtain ⟨l, hl, hl_start, hcontent⟩ :=
      exists_line_of_endsLine htext (by decide) ((hreaches.atLineStart_iff htext).mp hline)
    refine ⟨l, hl, hstart.trans hl_start.symm, ?_⟩
    rw [Line.stop, hl_start, hcontent, hstop, Scanner.take_lineLength]

end YamlStyle
