import YamlStyle.Proofs.LineEnding.Lines
import YamlStyle.Proofs.LineEnding.Scanner
import YamlStyle.Proofs.Scanner.Partition
import YamlStyle.Proofs.Token.Segment

/-!
# Token streams under CR LF

A stream is made of raw tokens by filtering, sorting and placing them. Filtering and sorting compare
offsets, which are boundaries here and keep their order, and placing looks up positions, which stay
where they are. What is left of the difference is the text of the tokens: a scalar that spans lines
has its breaks rewritten, a line break is CR LF, and a comment is the same, because it is on one line.
-/

set_option autoImplicit false

namespace YamlStyle

/-- A token with another text. -/
def Token.mapValue (f : Text → Text) (t : Token) : Token := { t with value := f t.value }

/-- A stream with every token rewritten. -/
def TokenStream.toCrlf (stream : TokenStream) : TokenStream :=
  ⟨stream.tokens.map (·.mapValue crlf), stream.error⟩

/-- Every offset of a scan is a boundary of the text, and its tokens do not run backwards. -/
structure Scan.Fits (scan : Scan) (text : Text) : Prop where
  token : ∀ t ∈ scan.tokens, ∃ piece, t.Spells text piece
  error : ∀ e, scan.error = some e → isBoundary text e.offset = true

theorem yamlScanner_fits (text : Text) : (yamlScanner text).Fits text where
  token _ ht := by
    obtain ⟨piece, hspells, -⟩ := exists_spells ht
    exact ⟨piece, hspells⟩
  error _ he := isBoundary_of_error he

/-! ## One token -/

variable {text : Text}

theorem RawToken.Spells.toCrlf {t : RawToken} {piece : Text} (h : t.Spells text piece) :
    (t.mapOffsets (crlfOffset text)).Spells (crlf text) (crlf piece) := by
  obtain ⟨front, back, rfl, hstart, hstop⟩ := h
  refine ⟨crlf front, crlf back, by rw [crlf_append, crlf_append], ?_, ?_⟩
  · show crlfOffset _ t.start = _
    rw [hstart, crlfOffset_width]
  · show crlfOffset _ t.stop = _
    rw [hstop, ← width_append, ← List.append_assoc, crlfOffset_width, crlf_append, width_append]

/-- The counterpart of a boundary has the same position. -/
theorem locate_crlfOffset (hunix : Unix text) {offset : Nat} (h : isBoundary text offset = true) :
    (Index.ofText (crlf text)).locate (crlfOffset text offset) =
      (Index.ofText text).locate offset := by
  obtain ⟨front, back, htext, rfl⟩ := isBoundary_iff.mp h
  have hoffset : crlfOffset text (width front) = width (crlf front) := by
    rw [htext, crlfOffset_width]
  rw [hoffset, Index.locate_crlf hunix htext]

namespace TokenStream

theorem place_crlf (hunix : Unix text) {t : RawToken} {piece : Text} (h : t.Spells text piece) :
    place (crlf text) (.ofText (crlf text)) (t.mapOffsets (crlfOffset text)) =
      (place text (.ofText text) t).mapValue crlf := by
  obtain ⟨hstart, hstop⟩ := h.isBoundary
  rw [place, place, h.toCrlf.slice?_eq, h.slice?_eq, RawToken.mapOffsets,
    locate_crlfOffset hunix hstart, locate_crlfOffset hunix hstop]
  rfl

/-! ## The cut -/

variable {scan : Scan}

theorem cutoff_crlf (hfits : scan.Fits text) :
    cutoff (crlf text) (scan.mapOffsets (crlfOffset text)) = crlfOffset text (cutoff text scan) := by
  rw [cutoff, cutoff, Scan.mapOffsets]
  cases herror : scan.error with
  | none =>
    have hend := crlfOffset_width text []
    rw [List.append_nil] at hend
    exact hend.symm
  | some e =>
    obtain ⟨front, back, rfl, hoffset⟩ := isBoundary_iff.mp (hfits.error e herror)
    show floorBoundary (crlf _) (crlfOffset _ e.offset) = crlfOffset _ (floorBoundary _ e.offset)
    rw [hoffset, floorBoundary_width, crlfOffset_width, crlf_append, floorBoundary_width]

/-! ## Line breaks -/

theorem mapOffsets_breakOf {l : Line} (h : l.Stands text) (hunix : Unix text) :
    (breakOf l).mapOffsets (crlfOffset text) = breakOf l.toCrlf := by
  rw [RawToken.mapOffsets, breakOf, breakOf, h.crlfOffset_stop, h.crlfOffset_nextStart hunix]

theorem lineBreaks_crlf (hunix : Unix text) {cut : Nat} (hcut : isBoundary text cut = true) :
    lineBreaks (crlf text) (crlfOffset text cut) =
      (lineBreaks text cut).map (·.mapOffsets (crlfOffset text)) := by
  have hkept : ∀ l ∈ lines text,
      (l.toCrlf.isTerminated && decide (l.toCrlf.stop < crlfOffset text cut)) =
        (l.isTerminated && decide (l.stop < cut)) := by
    intro l hl
    have hstands := stands_of_mem_lines hl
    have hstop : isBoundary text l.stop = true := (spells_breakOf hstands).isBoundary.1
    rw [l.isTerminated_toCrlf, ← hstands.crlfOffset_stop,
      decide_eq_decide.mpr (crlfOffset_lt_iff hstop hcut)]
  rw [lineBreaks, lineBreaks, lines_crlf hunix, List.filter_map, List.map_map, List.map_map]
  refine (congrArg _ (List.filter_congr hkept)).trans (List.map_congr_left fun l hl => ?_)
  exact (mapOffsets_breakOf (stands_of_mem_lines (List.mem_filter.mp hl).1) hunix).symm

/-! ## The whole stream -/

theorem kept_crlf (hfits : scan.Fits text) {cut : Nat} (hcut : isBoundary text cut = true) :
    ((scan.mapOffsets (crlfOffset text)).tokens.filter fun t =>
        isValid (crlf text) t && decide (t.start < crlfOffset text cut)) =
      (scan.tokens.filter fun t => isValid text t && decide (t.start < cut)).map
        (·.mapOffsets (crlfOffset text)) := by
  have hkept : ∀ t ∈ scan.tokens,
      (isValid (crlf text) (t.mapOffsets (crlfOffset text)) &&
        decide (crlfOffset text t.start < crlfOffset text cut)) =
          (isValid text t && decide (t.start < cut)) := by
    intro t ht
    obtain ⟨piece, hspells⟩ := hfits.token t ht
    rw [isValid, hspells.toCrlf.slice?_eq, isValid, hspells.slice?_eq,
      decide_eq_decide.mpr (crlfOffset_lt_iff hspells.isBoundary.1 hcut)]
    rfl
  rw [Scan.mapOffsets, List.filter_map]
  exact congrArg _ (List.filter_congr hkept)

theorem body_crlf (hunix : Unix text) (hfits : scan.Fits text) :
    body (crlf text) (scan.mapOffsets (crlfOffset text)) =
      (body text scan).map (·.mapOffsets (crlfOffset text)) := by
  have hcut := isBoundary_cutoff text scan
  -- The sort compares starts, and the counterparts of starts compare the same.
  have horder : ∀ a ∈ body text scan, ∀ b ∈ body text scan,
      decide (a.start ≤ b.start) =
        decide ((a.mapOffsets (crlfOffset text)).start ≤ (b.mapOffsets (crlfOffset text)).start) := by
    intro a ha b hb
    obtain ⟨-, piece, hspells⟩ := of_mem_body ha
    obtain ⟨-, piece', hspells'⟩ := of_mem_body hb
    refine decide_eq_decide.mpr ?_
    rw [← Nat.not_lt, ← Nat.not_lt]
    exact not_congr (crlfOffset_lt_iff hspells'.isBoundary.1 hspells.isBoundary.1).symm
  simp only [body, List.mem_mergeSort] at horder
  rw [body, cutoff_crlf hfits, kept_crlf hfits hcut, lineBreaks_crlf hunix hcut, ← List.map_append,
    body]
  exact (List.map_mergeSort horder).symm

theorem framed_crlf (hunix : Unix text) (hfits : scan.Fits text) :
    framed (crlf text) (scan.mapOffsets (crlfOffset text)) =
      (framed text scan).map (·.mapOffsets (crlfOffset text)) := by
  have hzero : crlfOffset text 0 = 0 := crlfOffset_width [] text
  rw [framed, framed, body_crlf hunix hfits, cutoff_crlf hfits]
  simp [RawToken.mapOffsets, hzero]

/-- **Streams are the same under CR LF**, apart from the texts of tokens. -/
theorem ofScan_crlf (hunix : Unix text) (hfits : scan.Fits text) :
    ofScan (crlf text) (scan.mapOffsets (crlfOffset text)) = (ofScan text scan).toCrlf := by
  have htokens : (ofScan (crlf text) (scan.mapOffsets (crlfOffset text))).tokens =
      (ofScan text scan).tokens.map (·.mapValue crlf) := by
    rw [tokens_ofScan, tokens_ofScan, framed_crlf hunix hfits, List.map_map, List.map_map]
    refine List.map_congr_left fun t ht => ?_
    obtain ⟨piece, hspells⟩ := exists_spells_of_mem_framed ht
    exact place_crlf hunix hspells
  have herror : (ofScan (crlf text) (scan.mapOffsets (crlfOffset text))).error =
      (ofScan text scan).error := by
    simp only [ofScan]
    rw [cutoff_crlf hfits, locate_crlfOffset hunix (isBoundary_cutoff text scan), Scan.mapOffsets,
      Option.map_map]
    rfl
  rw [toCrlf, ← htokens, ← herror]

theorem segment_crlf (hunix : Unix text) :
    segment yamlScanner (crlf text) = (segment yamlScanner text).toCrlf := by
  rw [segment, yamlScanner_crlf hunix, ofScan_crlf hunix (yamlScanner_fits text), segment]

theorem crlf_value_of_comment {t : Token} (ht : t ∈ (segment yamlScanner text).tokens)
    (hkind : t.kind = .comment) : crlf t.value = t.value := by
  rw [segment, tokens_ofScan] at ht
  obtain ⟨raw, hraw, rfl⟩ := List.mem_map.mp ht
  have hreal : raw.kind.isPseudo = false := by
    have hraw : raw.kind = .comment := hkind
    rw [hraw]
    rfl
  obtain ⟨piece, hspells, -, -, hcomment⟩ := exists_spells (mem_tokens_of_not_isPseudo hraw hreal)
  have hvalue : (place text (.ofText text) raw).value = piece := by
    rw [place, hspells.slice?_eq]
    rfl
  rw [hvalue, crlf_of_no_break (hcomment hkind)]

end TokenStream

end YamlStyle
