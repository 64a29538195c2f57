import YamlStyle.Proofs.Scanner.Comments
import YamlStyle.Proofs.Scanner.LineStart
import YamlStyle.Proofs.Scanner.Onset

/-!
# A block scalar and the lines of the text

The scanner reads a block scalar by walking over lines of its own: it keeps the indentation of the line
it is on, splits off what is behind the header, and counts characters. Said in the lines of the text, a
block scalar is simple. Its **header** is the line that it begins on, its body are the lines below as
long as they are nothing but spaces or indented deeper than the header, and it ends with the content of
the last of these lines that has something on it.

Two things have to agree for that. The indentation that a scan remembers has to be the one of the header
(`Reaches.indent_eq`), and counting characters has to come out at the end of a line
(`width_take_body`).
-/

set_option autoImplicit false

namespace YamlStyle

/-- Whether a line holds nothing but spaces. -/
def Line.isSpaces (l : Line) : Bool := l.content.all (· == ' ')

/-- Whether a line may be part of a body below a header that is indented by `indent`. -/
def Line.fitsBody (indent : Nat) (l : Line) : Bool :=
  l.isSpaces || decide (indent < leadingSpaces l.content)

/-- The lines of a body that are not just spaces. -/
def filledLines (indent : Nat) (below : List Line) : List Line :=
  (below.takeWhile (·.fitsBody indent)).filter (!·.isSpaces)

/-- The line with whose content a block scalar ends. -/
def lastOfBlock (header : Line) (below : List Line) : Line :=
  (filledLines (leadingSpaces header.content) below).getLast?.getD header

/-- A token begins on the line `header`. -/
structure BeginsOn (text : Text) (t : RawToken) (above : List Line) (header : Line)
    (below : List Line) : Prop where
  divides : lines text = above ++ header :: below
  start : header.start ≤ t.start
  stop : t.start < header.nextStart

/-! ## Lines -/

theorem leadingSpaces_eq_length_iff (text : Text) :
    leadingSpaces text = text.length ↔ text.all (· == ' ') = true := by
  rw [leadingSpaces, List.all_eq_true]
  constructor
  · intro hlength c hc
    rw [← (List.takeWhile_prefix _).eq_of_length hlength] at hc
    exact List.mem_takeWhile_imp (p := (· == ' ')) hc
  · intro hall
    rw [List.takeWhile_eq_self_iff.mpr hall]

theorem Scanner.isHollow_eq (l : Line) : isHollow l = l.isSpaces := by
  rw [Bool.eq_iff_iff, isHollow, beq_iff_eq, leadingSpaces_eq_length_iff, Line.isSpaces]

theorem Line.start_lt_stop {l : Line} (h : l.isSpaces = false) : l.start < l.stop := by
  have hne : l.content ≠ [] := by
    intro hnil
    rw [Line.isSpaces, hnil] at h
    exact absurd h (by simp)
  have hpos := width_pos hne
  rw [Line.stop]
  omega

theorem filledLines_cons (indent : Nat) (l : Line) (below : List Line) :
    filledLines indent (l :: below) =
      if l.isSpaces then filledLines indent below
      else if indent < leadingSpaces l.content then l :: filledLines indent below
      else [] := by
  unfold filledLines
  cases hspaces : l.isSpaces with
  | true =>
    rw [List.takeWhile_cons_of_pos (by simp [Line.fitsBody, hspaces])]
    simp [hspaces]
  | false =>
    by_cases hindent : indent < leadingSpaces l.content
    · rw [List.takeWhile_cons_of_pos (by simp [Line.fitsBody, hindent])]
      simp [hspaces, hindent]
    · rw [List.takeWhile_cons_of_neg (by simp [Line.fitsBody, hspaces, hindent])]
      simp [hindent]

theorem leadingSpaces_lineContent (text : Text) :
    leadingSpaces (lineContent text) = leadingSpaces text := by
  induction text with
  | nil => rfl
  | cons c text ih =>
    by_cases hc : c = ' '
    · subst hc
      have hcontent : lineContent (' ' :: text) = ' ' :: lineContent text := rfl
      have hspaces : ∀ rest, leadingSpaces (' ' :: rest) = leadingSpaces rest + 1 := fun _ => rfl
      rw [hcontent, hspaces, hspaces, ih]
    · have hzero : ∀ rest, leadingSpaces (c :: rest) = 0 := by
        intro rest
        simp [leadingSpaces, hc]
      rw [hzero, lineContent, List.takeWhile_cons]
      split
      · exact hzero _
      · rfl

/-- What is on a line in front of a place belongs to its content. -/
theorem line_of_flat {front : Text} (h : ∀ c ∈ front, isBreak c = false) (back : Text) :
    lineContent (front ++ back) = front ++ lineContent back ∧
      lineEnding (front ++ back) = lineEnding back ∧ lineBelow (front ++ back) = lineBelow back := by
  have hall : ∀ c ∈ front, (!isBreak c) = true := by
    intro c hc
    rw [h c hc]
    rfl
  have hrest : lineRest (front ++ back) = lineRest back := List.dropWhile_append_of_pos hall
  refine ⟨List.takeWhile_append_of_pos hall, ?_, ?_⟩
  · rw [lineEnding, hrest, lineEnding]
  · rw [lineBelow, hrest, lineBelow]

/-- A line is the first one of some text. -/
theorem first_of_mem_linesFrom {number start : Nat} {before text : Text} {l : Line}
    (h : l ∈ linesFrom number start before text) :
    ∃ tail, l.content = lineContent tail ∧ l.ending = lineEnding tail ∧ l.after = lineBelow tail := by
  induction text using line_induction generalizing number start before with
  | nil => simp [linesFrom] at h
  | line text hne ih =>
    rw [linesFrom_of_ne_nil _ _ _ hne] at h
    rcases List.mem_cons.mp h with rfl | h
    · exact ⟨text, rfl, rfl, rfl⟩
    · exact ih h

theorem first_of_start {text front tail : Text} {l : Line} (hl : l ∈ lines text)
    (htext : text = front ++ tail) (hstart : l.start = width front) :
    l.content = lineContent tail ∧ l.ending = lineEnding tail ∧ l.after = lineBelow tail := by
  have hstands := stands_of_mem_lines hl
  obtain ⟨tail', hcontent, hending, hafter⟩ := first_of_mem_linesFrom hl
  have htail := (append_inj_of_width_eq (htext.symm.trans hstands.text)
    (hstart.symm.trans hstands.start)).2
  rw [hcontent, hending, hafter, line_append] at htail
  rw [htail]
  exact ⟨hcontent, hending, hafter⟩

theorem pairwise_linesFrom (number start : Nat) (before text : Text) :
    (linesFrom number start before text).Pairwise fun a b => a.nextStart ≤ b.start := by
  induction text using line_induction generalizing number start before with
  | nil =>
    rw [linesFrom]
    exact List.Pairwise.nil
  | line text hne ih =>
    rw [linesFrom_of_ne_nil _ _ _ hne, List.pairwise_cons]
    exact ⟨fun b hb => le_start_of_mem_linesFrom hb, ih _ _ _⟩

theorem Bracket.kind_ne_blockScalar (b : Bracket) :
    b.openKind ≠ .blockScalar ∧ b.closeKind ≠ .blockScalar := by
  cases b <;> decide

namespace Scanner

/-! ## The indentation of the current line -/

@[simp] theorem track_indent (s : State) (kind : TokenKind) : (s.track kind).indent = s.indent := by
  cases kind <;> rfl

/-- The scanner remembers how far the line that it is on is indented. -/
theorem Reaches.indent_eq {text left above below : Text} {tokens : List RawToken} {here : State}
    (h : Reaches (.initial text) text tokens here left) (htext : text = above ++ below)
    (hstart : here.lineStart = width above) : here.indent = leadingSpaces below := by
  induction h with
  | start =>
    obtain rfl := eq_nil_of_width_eq_zero hstart.symm
    rw [htext]
    rfl
  | @step tokens here c rest found hreaches _ ih =>
    obtain ⟨taken, hwhole, hpos⟩ := hreaches.exists_front
    -- Only the text that a step takes moves the line, whatever it opens or closes.
    have hadvance : ∀ s : State, s.pos = here.pos → s.lineStart = here.lineStart →
        s.indent = here.indent →
        (s.advance (c :: rest.take found.length) (rest.drop found.length)).lineStart = width above →
        (s.advance (c :: rest.take found.length) (rest.drop found.length)).indent =
          leadingSpaces below := by
      intro s hsame hline hindent
      unfold State.advance
      cases hlast : lastLine? (c :: rest.take found.length) with
      | none =>
        intro hstart
        exact hindent.trans (ih (hline.symm.trans hstart))
      | some cut =>
        obtain ⟨front, last⟩ := cut
        intro hstart
        have hparts : above ++ below = (taken ++ front) ++ (last ++ rest.drop found.length) := by
          rw [← htext, hwhole, List.append_assoc, ← List.append_assoc front, ← lastLine?_append hlast,
            List.cons_append, List.take_append_drop]
        have hwidth : width above = width (taken ++ front) := by
          rw [width_append, ← hpos, ← hsame]
          exact hstart.symm
        exact congrArg leadingSpaces (append_inj_of_width_eq hparts hwidth).2.symm
    cases found with
    | layout n => exact hadvance here rfl rfl rfl hstart
    | token kind n =>
      exact hadvance (here.track kind) (track_pos ..) (track_lineStart ..) (track_indent ..) hstart

/-! ## The body -/

theorem length_of_block {s : State} {c : Char} {rest : Text} {n : Nat}
    (h : lexeme s c rest = .ok (.token .blockScalar n)) : n = blockLength s.indent rest := by
  revert h
  fun_cases lexeme s c rest
  case case10 =>
    intro h
    exact absurd (Lexeme.token.inj (Except.ok.inj h)).1 (Bracket.kind_ne_blockScalar _).1
  case case11 =>
    intro h
    exact absurd (Lexeme.token.inj (eq_of_closeFlow h)).1.symm (Bracket.kind_ne_blockScalar _).2
  case case16 =>
    intro h
    obtain ⟨m, -, hfound⟩ := exists_of_quotedScalar h
    exact absurd hfound (by simp)
  case case17 =>
    intro h
    exact (Lexeme.token.inj (Except.ok.inj h)).2.symm
  all_goals exact fun h => absurd h (by simp)

theorem bodyLength_eq_zero_iff (indent pending : Nat) (below : List Line) :
    bodyLength indent pending below = 0 ↔ filledLines indent below = [] := by
  induction below generalizing pending with
  | nil => simp [bodyLength, filledLines]
  | cons l below ih =>
    rw [bodyLength, filledLines_cons, isHollow_eq]
    split
    · rw [← ih l.ending.text.length]
      split
      · simp_all
      · simp_all
    · split
      · rename_i hindent
        -- A line that is indented has some characters.
        have hlength : leadingSpaces l.content ≤ l.content.length :=
          (List.takeWhile_prefix _).length_le
        refine iff_of_false ?_ (by simp)
        omega
      · simp

theorem bodyFrom_eq_zero_iff (indent pending number start : Nat) (before text : Text) :
    bodyFrom indent pending text = 0 ↔ filledLines indent (linesFrom number start before text) = [] := by
  rw [bodyFrom, lines, bodyLength_linesFrom indent pending 1 0 [] text number start before,
    bodyLength_eq_zero_iff]

/-- Counting the characters of a body comes out at the end of its last line. -/
theorem width_take_body (indent base number : Nat) (above before text : Text) :
    base + width ((above ++ text).take (bodyFrom indent above.length text)) =
      ((filledLines indent (linesFrom number (base + width above) before text)).getLast?.map
        Line.stop).getD base := by
  induction text using line_induction generalizing base number above before with
  | nil => simp [linesFrom, filledLines]
  | line text hne ih =>
    have hmore : ∀ n, base + width ((above ++ text).take (above.length + (lineContent text).length + n)) =
        base + width above + width (lineContent text) +
          width (((lineEnding text).text ++ lineBelow text).take n) := by
      intro n
      rw [take_body, width_append, width_append]
      omega
    have hbelow := ih (base + width above + width (lineContent text)) (number + 1)
      (lineEnding text).text ((lineEnding text).text.reverse ++ ((lineContent text).reverse ++ before))
    have hzero := bodyFrom_eq_zero_iff indent (lineEnding text).text.length (number + 1)
      (base + width above + width (lineContent text) + width (lineEnding text).text)
      ((lineEnding text).text.reverse ++ ((lineContent text).reverse ++ before)) (lineBelow text)
    rw [bodyFrom_of_ne_nil _ _ hne, linesFrom_of_ne_nil _ _ _ hne, filledLines_cons, ← isHollow_eq]
    generalize filledLines indent (linesFrom (number + 1) _ _ (lineBelow text)) = filled at hbelow hzero ⊢
    show _ = ((if hollowFirst text then filled else _).getLast?.map Line.stop).getD base
    split
    · split
      · -- Nothing below is part of the body, so that the spaces are not either.
        rename_i hnone
        rw [hzero.mp hnone]
        simp
      · rename_i n hn
        have hfilled : filled ≠ [] := by
          intro hnil
          exact absurd (hn.symm.trans (hzero.mpr hnil)) (by simp)
        rw [hn] at hbelow
        rw [hmore, hbelow, List.getLast?_eq_some_getLast hfilled]
        rfl
    · split
      · rw [hmore, hbelow, List.getLast?_cons]
        cases filled.getLast? <;> rfl
      · simp

end Scanner

/-! ## The lines of a token -/

variable {text : Text} {t : RawToken} {above below : List Line} {header : Line}

theorem exists_beginsOn (ht : t ∈ (yamlScanner text).tokens) :
    ∃ above header below, BeginsOn text t above header below := by
  obtain ⟨front, c, back, htext, -, hstart⟩ := (onset_yamlScanner text).1 t ht
  have hlt : t.start < 0 + width text := by
    have hpos := c.utf8Size_pos
    rw [hstart, htext, width_append, width_cons]
    omega
  obtain ⟨header, hheader, hle, hlt⟩ :=
    Index.exists_holds_linesFrom 1 [] (Nat.zero_le t.start) hlt
  obtain ⟨above, below, hlines⟩ := List.append_of_mem hheader
  exact ⟨above, header, below, hlines, hle, hlt⟩

/-- A token begins in the content of a line, which is then more than spaces. -/
theorem of_start_on_line {l : Line} (hl : l ∈ lines text) (ht : t ∈ (yamlScanner text).tokens)
    (hstart : l.start ≤ t.start) (hnext : t.start < l.nextStart) :
    l.isSpaces = false ∧ t.start < l.stop := by
  obtain ⟨front, c, back, htext, hc, hoffset⟩ := (onset_yamlScanner text).1 t ht
  obtain ⟨l', hl', inner, hcontent, hfront⟩ := exists_line_of_char htext (Bool.or_eq_false_iff.mp hc).2
  have hplace : t.start = l'.start + width inner := by
    rw [hoffset, hfront, width_append, ← (stands_of_mem_lines hl').start]
  have hstop : t.start < l'.stop := by
    have hpos := c.utf8Size_pos
    rw [hplace, Line.stop, hcontent, width_append, width_cons]
    omega
  obtain rfl := Index.eq_of_holds ⟨hstart, Or.inl hnext⟩
    (Line.holds_of_le (by omega) (Nat.le_of_lt hstop)) hl hl'
  refine ⟨?_, hstop⟩
  rw [← Bool.not_eq_true, Line.isSpaces, List.all_eq_true]
  intro hall
  have hspace := hall c (by rw [hcontent]; simp)
  rw [beq_iff_eq.mp hspace] at hc
  exact absurd hc (by decide)

namespace BeginsOn

theorem mem (h : BeginsOn text t above header below) : header ∈ lines text := by
  rw [h.divides]
  simp

/-- What a place of the scan says about the line that a token begins on. -/
theorem header_eq {tokens : List RawToken} {place : Scanner.State} {c : Char} {front rest : Text}
    (h : BeginsOn text t above header below)
    (hplace : Scanner.Reaches (.initial text) text tokens place (c :: rest))
    (hc : isBreak c = false) (htext : text = front ++ c :: rest) (hstart : t.start = width front) :
    header.stop = t.start + width (c :: lineContent rest) ∧ header.ending = lineEnding rest ∧
      header.after = lineBelow rest ∧ place.indent = leadingSpaces header.content := by
  obtain ⟨taken, line, honline⟩ := hplace.exists_onLine
  obtain rfl : front = taken ++ line := by
    have hparts : front ++ c :: rest = taken ++ line ++ c :: rest := by
      rw [← htext, honline.whole, List.append_assoc]
    exact List.append_cancel_right hparts
  have hflat : ∀ d ∈ line ++ [c], isBreak d = false := by
    intro d hd
    rcases List.mem_append.mp hd with hd | hd
    · exact honline.flat d hd
    · rwa [List.mem_singleton.mp hd]
  have hwhole : text = taken ++ ((line ++ [c]) ++ rest) := by
    rw [htext]
    simp
  -- The line that the scan is on begins behind `taken`, and the token is on it.
  obtain ⟨l, hl, hline⟩ : ∃ l ∈ lines text, l.start = width taken := by
    obtain ⟨d, tail, htail⟩ := List.exists_cons_of_ne_nil (l := line ++ [c]) (by simp)
    have hd : isBreak d = false := hflat d (by rw [htail]; exact List.mem_cons_self)
    rw [htail] at hwhole
    obtain ⟨l, hl, hline, -⟩ := exists_line_of_endsLine hwhole hd honline.ends
    exact ⟨l, hl, hline⟩
  obtain ⟨hcontent, hending, hafter⟩ := first_of_start hl hwhole hline
  obtain ⟨hcontent', hending', hafter'⟩ := line_of_flat hflat rest
  have hstop : l.stop = t.start + width (c :: lineContent rest) := by
    rw [Line.stop, hcontent, hcontent', hline, hstart, List.append_assoc]
    simp only [width_append, List.singleton_append]
    omega
  have hholds : l.Holds t.start := by
    apply Line.holds_of_le
    · rw [hline, hstart, width_append]
      omega
    · omega
  obtain rfl := Index.eq_of_holds ⟨h.start, Or.inl h.stop⟩ hholds h.mem hl
  refine ⟨hstop, hending.trans hending', hafter.trans hafter', ?_⟩
  rw [hcontent, leadingSpaces_lineContent]
  exact hplace.indent_eq hwhole honline.lineStart

theorem stop_eq (h : BeginsOn text t above header below) (ht : t ∈ (yamlScanner text).tokens)
    (hkind : t.kind = .blockScalar) : t.stop = (lastOfBlock header below).stop := by
  obtain ⟨before, place, front, c, rest, n, hplace, htext, hfound, hstart, hstop⟩ := exists_place ht
  have hc := (Bool.or_eq_false_iff.mp (Scanner.isLayout_of_token hfound)).2
  rw [hkind] at hfound
  obtain rfl := Scanner.length_of_block hfound
  obtain ⟨hend, hending, hafter, hindent⟩ := h.header_eq hplace hc htext hstart
  obtain ⟨before', hbelow⟩ := (linesFrom_below h.divides).2
  have hbody := Scanner.width_take_body place.indent header.stop (header.number + 1)
    header.ending.text before' header.after
  have hnext : header.nextStart = header.stop + width header.ending.text := rfl
  rw [← hnext, ← hbelow, hindent] at hbody
  rw [hstop, ← hstart, hindent, Scanner.take_block, ← hafter, ← hending, ← List.cons_append,
    width_append, ← Nat.add_assoc, ← hend, hbody, lastOfBlock]
  cases (filledLines (leadingSpaces header.content) below).getLast? <;> rfl

theorem pairwise (h : BeginsOn text t above header below) :
    (above ++ header :: below).Pairwise fun a b => a.nextStart ≤ b.start := by
  rw [← h.divides]
  exact pairwise_linesFrom 1 0 [] text

/-- The lines of a block scalar that are not just spaces, the header being the first of them. -/
theorem exists_init (header : Line) (below : List Line) :
    ∃ init, header :: filledLines (leadingSpaces header.content) below =
      init ++ [lastOfBlock header below] := by
  apply List.getLast?_eq_some_iff.mp
  rw [List.getLast?_cons, lastOfBlock]

/-- No line of a block scalar that has something on it ends behind the last one. -/
theorem stop_le_lastOfBlock (h : BeginsOn text t above header below) {l : Line}
    (hl : l ∈ filledLines (leadingSpaces header.content) below) :
    l.stop ≤ (lastOfBlock header below).stop := by
  have hsublist : (filledLines (leadingSpaces header.content) below).Sublist below :=
    List.filter_sublist.trans (List.takeWhile_sublist _)
  have hpairwise := (List.pairwise_append.mp h.pairwise).2.1.sublist (hsublist.cons_cons header)
  obtain ⟨init, hinit⟩ := exists_init header below
  rw [hinit] at hpairwise
  have hmem : l ∈ init ++ [lastOfBlock header below] := by
    rw [← hinit]
    exact List.mem_cons_of_mem _ hl
  rcases List.mem_append.mp hmem with hl | hl
  · have hle := (List.pairwise_append.mp hpairwise).2.2 l hl _ List.mem_cons_self
    rw [Line.nextStart] at hle
    rw [Line.stop] at hle ⊢
    rw [Line.stop]
    omega
  · rw [List.mem_singleton.mp hl]

/-- No token begins in the body of a block scalar. -/
theorem not_start_in_body (h : BeginsOn text t above header below) (ht : t ∈ (yamlScanner text).tokens)
    (hstop : t.stop = (lastOfBlock header below).stop) {l : Line}
    (hl : l ∈ below.takeWhile (·.fitsBody (leadingSpaces header.content))) {u : RawToken}
    (hu : u ∈ (yamlScanner text).tokens) : ¬ (l.start ≤ u.start ∧ u.start < l.nextStart) := by
  rintro ⟨hstart, hnext⟩
  have hbelow : l ∈ below := (List.takeWhile_sublist _).mem hl
  have hmem : l ∈ lines text := by
    rw [h.divides]
    exact List.mem_append_right _ (List.mem_cons_of_mem _ hbelow)
  obtain ⟨hspaces, hcontent⟩ := of_start_on_line hmem hu hstart hnext
  have hlast : l.stop ≤ (lastOfBlock header below).stop :=
    h.stop_le_lastOfBlock (List.mem_filter.mpr ⟨hl, by simp [hspaces]⟩)
  have horder : header.nextStart ≤ l.start :=
    (List.pairwise_cons.mp (List.pairwise_append.mp h.pairwise).2.1).1 l hbelow
  have hbefore : t.start < u.start := Nat.lt_of_lt_of_le h.stop (Nat.le_trans horder hstart)
  have hapart := apart ht hu (by rintro rfl; omega) (Nat.le_of_lt hbefore)
  omega

theorem lastOfBlock_mem (header : Line) (below : List Line) :
    lastOfBlock header below ∈
      header :: below.takeWhile (·.fitsBody (leadingSpaces header.content)) := by
  obtain ⟨init, hinit⟩ := exists_init header below
  have hmem : lastOfBlock header below ∈ header :: filledLines (leadingSpaces header.content) below := by
    rw [hinit]
    simp
  exact (List.filter_sublist.cons_cons header).mem hmem

/-- The first line behind a block scalar that is not just spaces is the one that its body stopped at. -/
theorem find?_behind (h : BeginsOn text t above header below) (hlt : t.start < t.stop)
    (hstop : t.stop = (lastOfBlock header below).stop) :
    (lines text).find? (fun l => decide (t.stop ≤ l.start) && !l.isSpaces) =
      (below.dropWhile (·.fitsBody (leadingSpaces header.content))).head? := by
  have hparts : lines text =
      (above ++ header :: below.takeWhile (·.fitsBody (leadingSpaces header.content))) ++
        below.dropWhile (·.fitsBody (leadingSpaces header.content)) := by
    rw [List.append_assoc, List.cons_append, List.takeWhile_append_dropWhile, h.divides]
  have hpairwise := pairwise_linesFrom 1 0 [] text
  rw [← lines, hparts, List.pairwise_append, List.pairwise_append] at hpairwise
  obtain ⟨⟨-, -, habove⟩, -, hbehind⟩ := hpairwise
  have hlast := lastOfBlock_mem header below
  have hfilled : ∀ l ∈ below.takeWhile (·.fitsBody (leadingSpaces header.content)),
      l.isSpaces = false → l.stop ≤ t.stop := by
    intro l hl hspaces
    rw [hstop]
    exact h.stop_le_lastOfBlock (List.mem_filter.mpr ⟨hl, by simp [hspaces]⟩)
  have hfirst := List.head?_dropWhile_not
    (fun l => Line.fitsBody (leadingSpaces header.content) l) below
  rw [hparts]
  generalize below.takeWhile _ = body at habove hbehind hfilled hlast ⊢
  generalize below.dropWhile _ = rest at hbehind hfirst ⊢
  -- Nothing up to the end of the body is behind the token and more than spaces.
  have hnone : ∀ l ∈ above ++ header :: body, ¬ (decide (t.stop ≤ l.start) && !l.isSpaces) = true := by
    intro l hl hfound
    obtain ⟨hle, hspaces⟩ := by simpa using hfound
    rcases List.mem_append.mp hl with hl | hl
    · have horder := habove l hl header List.mem_cons_self
      have hstart := h.start
      rw [Line.nextStart, Line.stop] at horder
      omega
    · rcases List.mem_cons.mp hl with rfl | hl
      · have hstart := h.start
        omega
      · have hend := hfilled l hl hspaces
        have hcontent := Line.start_lt_stop hspaces
        omega
  rw [List.find?_append, List.find?_eq_none.mpr hnone, Option.none_or]
  cases rest with
  | nil => rfl
  | cons next rest =>
    have hnext : t.stop ≤ next.start := by
      have horder := hbehind _ (List.mem_append_right above hlast) next List.mem_cons_self
      rw [Line.nextStart] at horder
      omega
    have hspaces : next.isSpaces = false := by
      simp only [List.head?_cons, Line.fitsBody, Bool.or_eq_false_iff] at hfirst
      exact hfirst.1
    rw [List.find?_cons_of_pos (by simp [hnext, hspaces])]
    rfl

end BeginsOn

/-- What a block scalar takes of the text that it stands in. -/
structure BlockExtent (text : Text) (t : RawToken) (header : Line) (below : List Line) : Prop where
  /-- It ends with the last line of the body that has something on it, or with the header. -/
  stop : t.stop = (lastOfBlock header below).stop
  alone : ∀ u ∈ (yamlScanner text).tokens, u ≠ t → ¬ (t.start ≤ u.start ∧ u.start < t.stop)
  /-- No token begins on a line of the body, be it part of the block scalar or not. -/
  body : ∀ l ∈ below.takeWhile (·.fitsBody (leadingSpaces header.content)),
    ∀ u ∈ (yamlScanner text).tokens, ¬ (l.start ≤ u.start ∧ u.start < l.nextStart)
  /-- The first line behind it that is not just spaces is indented no deeper than the header. -/
  next : ∀ l, (lines text).find? (fun l => decide (t.stop ≤ l.start) && !l.isSpaces) = some l →
    leadingSpaces l.content ≤ leadingSpaces header.content

/-- **A block scalar takes its indented body**, and nothing more. -/
theorem yamlScanner_blockScalar (ht : t ∈ (yamlScanner text).tokens) (hkind : t.kind = .blockScalar) :
    (∃ above header below, BeginsOn text t above header below) ∧
      ∀ above header below, BeginsOn text t above header below → BlockExtent text t header below := by
  refine ⟨exists_beginsOn ht, ?_⟩
  intro above header below hbegins
  have hstop := hbegins.stop_eq ht hkind
  refine ⟨hstop, ?_, fun l hl u hu => hbegins.not_start_in_body ht hstop hl hu, ?_⟩
  · intro u hu hne hin
    have hapart := apart ht hu (Ne.symm hne) hin.1
    omega
  · intro l hl
    rw [hbegins.find?_behind (extent_of_mem_tokens ht).1 hstop] at hl
    have hfits := List.head?_dropWhile_not
      (fun l => Line.fitsBody (leadingSpaces header.content) l) below
    rw [hl] at hfits
    have hindent : l.isSpaces = false ∧ leadingSpaces l.content ≤ leadingSpaces header.content := by
      simpa [Line.fitsBody] using hfits
    exact hindent.2

/-- A body with an empty line inside and a line of spaces below it. -/
def nested : Text := "a:\n k: |\n  x\n\n  y\n   \n b: 1\n".toList

theorem yamlScanner_blockScalar_nested : ⟨.blockScalar, 7, 17⟩ ∈ (yamlScanner nested).tokens ∧
    ∃ above header below, BeginsOn nested ⟨.blockScalar, 7, 17⟩ above header below ∧
      (lastOfBlock header below).stop = 17 := by
  have hmem : ⟨.blockScalar, 7, 17⟩ ∈ (yamlScanner nested).tokens := by decide +kernel
  obtain ⟨⟨above, header, below, hbegins⟩, hextent⟩ := yamlScanner_blockScalar hmem rfl
  exact ⟨hmem, above, header, below, hbegins, (hextent _ _ _ hbegins).stop.symm⟩

end YamlStyle
