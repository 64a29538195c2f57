import Mathlib.Order.Bounds.Basic
import YamlStyle.Proofs.Line.Position
import YamlStyle.Proofs.Sort.Stable
import YamlStyle.Proofs.Token.Spells
import YamlStyle.Proofs.Token.Window
import YamlStyle.Token.Stream

/-!
# Streams of untrusted tokenizers

Nothing is promised about what a tokenizer reports, and still a stream is made of it that every reader
can rely on. `segment_withstands` says what that stream is, for any scan whatsoever: which raw tokens
are in it, in which order, how ties are broken and where the stream ends.

Placing a raw token takes a slice of the document, and a slice between offsets that are no boundaries
does not exist. `place?` is placing that admits to this. That it succeeds for a whole stream is part of
the theorem, so that no token of a stream has its text made up.

Positions come in order because offsets do, and because every offset of a stream is a boundary.
-/

set_option autoImplicit false

namespace YamlStyle

/-- The offsets of a raw token are in order, in the document, and between characters. -/
def RawToken.IsSound (t : RawToken) (text : Text) : Prop :=
  t.start ≤ t.stop ∧ t.stop ≤ width text ∧ isBoundary text t.start = true ∧
    isBoundary text t.stop = true

instance (t : RawToken) (text : Text) : Decidable (t.IsSound text) :=
  inferInstanceAs (Decidable (_ ∧ _))

namespace TokenStream

variable {text : Text} {scan : Scan}

theorem isValid_iff {t : RawToken} : isValid text t = true ↔ t.IsSound text := by
  rw [isValid, isSome_slice?_iff]
  refine ⟨fun h => ⟨h.1, le_width_of_isBoundary h.2.2, h.2⟩, fun h => ⟨h.1, h.2.2⟩⟩

theorem exists_spells_of_isValid {t : RawToken} (h : isValid text t = true) :
    ∃ piece, t.Spells text piece := by
  obtain ⟨piece, hpiece⟩ := Option.isSome_iff_exists.mp h
  exact ⟨piece, RawToken.spells_of_slice? hpiece⟩

/-! ## The cut -/

theorem isBoundary_cutoff (text : Text) (scan : Scan) : isBoundary text (cutoff text scan) = true := by
  unfold cutoff
  cases scan.error with
  | none => exact isBoundary_iff.mpr ⟨text, [], by simp, rfl⟩
  | some e => exact isBoundary_floorBoundary text e.offset

theorem isGreatest_cutoff {e : ScanError} (h : scan.error = some e) :
    IsGreatest {b | isBoundary text b = true ∧ b ≤ min e.offset (width text)} (cutoff text scan) := by
  rw [cutoff, h]
  have hboundary := isBoundary_floorBoundary text e.offset
  refine ⟨⟨hboundary, Nat.le_min.mpr ⟨floorBoundary_le text _, le_width_of_isBoundary hboundary⟩⟩, ?_⟩
  rintro b ⟨hb, hle⟩
  exact le_floorBoundary hb (Nat.le_min.mp hle).1

/-! ## Line breaks -/

/-- The raw token of the break that ends a line. -/
def breakOf (l : Line) : RawToken := ⟨.lineBreak, l.stop, l.nextStart⟩

theorem spells_breakOf {l : Line} (h : l.Stands text) : (breakOf l).Spells text l.ending.text := by
  refine ⟨l.before.reverse ++ l.content, l.after, ?_, h.stop_eq, ?_⟩
  · rw [List.append_assoc]
    exact h.text
  · rw [← h.stop_eq]
    rfl

/-- The breaks of the lines that have an ending, and have it before the cut. -/
def breaks (text : Text) (cut : Nat) : List RawToken :=
  ((lines text).filter fun l => decide (l.ending ≠ .none ∧ l.stop < cut)).map breakOf

theorem lineBreaks_eq (text : Text) (cut : Nat) : lineBreaks text cut = breaks text cut := by
  have hended : ∀ l : Line, (l.isTerminated && decide (l.stop < cut)) =
      decide (l.ending ≠ .none ∧ l.stop < cut) := by
    intro l
    rw [Bool.eq_iff_iff, Bool.and_eq_true, Line.isTerminated, bne_iff_ne, decide_eq_true_eq,
      decide_eq_true_eq]
  simp only [lineBreaks, hended]
  rfl

theorem of_mem_breaks {t : RawToken} {cut : Nat} (h : t ∈ breaks text cut) :
    t.kind = .lineBreak ∧ t.start < cut ∧ ∃ piece, t.Spells text piece := by
  obtain ⟨l, hl, rfl⟩ := List.mem_map.mp h
  obtain ⟨hmem, hkept⟩ := List.mem_filter.mp hl
  exact ⟨rfl, (of_decide_eq_true hkept).2, _, spells_breakOf (stands_of_mem_lines hmem)⟩

/-! ## The body -/

theorem sortable_start : Sortable fun a b : RawToken => decide (a.start ≤ b.start) where
  trans a b c hab hbc := by
    rw [decide_eq_true_eq] at hab hbc ⊢
    exact Nat.le_trans hab hbc
  total a b := by
    rw [Bool.or_eq_true, decide_eq_true_eq, decide_eq_true_eq]
    exact Nat.le_total _ _

/-- What is left of a scan when it is cut off. -/
def kept (text : Text) (scan : Scan) (cut : Nat) : List RawToken :=
  scan.tokens.filter fun t => decide (t.IsSound text ∧ t.start < cut)

theorem body_eq (text : Text) (scan : Scan) :
    body text scan = (kept text scan (cutoff text scan) ++
      breaks text (cutoff text scan)).mergeSort fun a b => decide (a.start ≤ b.start) := by
  have hkept : ∀ t : RawToken, (isValid text t && decide (t.start < cutoff text scan)) =
      decide (t.IsSound text ∧ t.start < cutoff text scan) := by
    intro t
    rw [Bool.eq_iff_iff, Bool.and_eq_true, isValid_iff, decide_eq_true_eq, decide_eq_true_eq]
  rw [body, kept]
  simp only [hkept, lineBreaks_eq]

theorem pairwise_body (text : Text) (scan : Scan) :
    (body text scan).Pairwise fun t u => t.start ≤ u.start := by
  have hsorted := List.pairwise_mergeSort sortable_start.trans sortable_start.total
    (kept text scan (cutoff text scan) ++ breaks text (cutoff text scan))
  rw [body_eq]
  exact hsorted.imp fun h => of_decide_eq_true h

theorem mem_body_iff {t : RawToken} :
    t ∈ body text scan ↔
      t ∈ kept text scan (cutoff text scan) ∨ t ∈ breaks text (cutoff text scan) := by
  rw [body_eq, List.mem_mergeSort, List.mem_append]

theorem of_mem_body {t : RawToken} (h : t ∈ body text scan) :
    t.start < cutoff text scan ∧ ∃ piece, t.Spells text piece := by
  rcases mem_body_iff.mp h with h | h
  · have hsound := of_decide_eq_true (List.mem_filter.mp h).2
    exact ⟨hsound.2, exists_spells_of_isValid (isValid_iff.mpr hsound.1)⟩
  · exact (of_mem_breaks h).2

/-- What a stream adds to a scan between the two that frame it are line breaks. -/
theorem mem_tokens_of_mem_body {t : RawToken} (ht : t ∈ body text scan) (hkind : t.kind ≠ .lineBreak) :
    t ∈ scan.tokens := by
  rcases mem_body_iff.mp ht with h | h
  · exact (List.mem_filter.mp h).1
  · exact absurd (of_mem_breaks h).1 hkind

/-! ## The whole stream -/

/-- The raw tokens of a stream, those that frame it included. -/
def framed (text : Text) (scan : Scan) : List RawToken :=
  ⟨.streamStart, 0, 0⟩ :: body text scan ++
    [⟨.streamEnd, cutoff text scan, cutoff text scan⟩]

theorem tokens_ofScan (text : Text) (scan : Scan) :
    (ofScan text scan).tokens = (framed text scan).map (place text (.ofText text)) := rfl

theorem mem_framed_iff {t : RawToken} :
    t ∈ framed text scan ↔ t = ⟨.streamStart, 0, 0⟩ ∨ t ∈ body text scan ∨
      t = ⟨.streamEnd, cutoff text scan, cutoff text scan⟩ := by
  simp [framed]

theorem exists_spells_of_mem_framed {t : RawToken} (h : t ∈ framed text scan) :
    ∃ piece, t.Spells text piece := by
  rcases mem_framed_iff.mp h with rfl | h | rfl
  · exact ⟨[], RawToken.spells_mark _ (isBoundary_width [] text)⟩
  · exact (of_mem_body h).2
  · exact ⟨[], RawToken.spells_mark _ (isBoundary_cutoff text scan)⟩

/-- What a stream adds to a scan is of the pseudo kinds. -/
theorem mem_tokens_of_not_isPseudo {t : RawToken} (ht : t ∈ framed text scan)
    (hkind : t.kind.isPseudo = false) : t ∈ scan.tokens := by
  rcases mem_framed_iff.mp ht with rfl | h | rfl
  · exact absurd hkind (by simp [TokenKind.isPseudo])
  · refine mem_tokens_of_mem_body h ?_
    intro hbreak
    rw [hbreak] at hkind
    exact absurd hkind (by simp [TokenKind.isPseudo])
  · exact absurd hkind (by simp [TokenKind.isPseudo])

theorem pairwise_framed (text : Text) (scan : Scan) :
    (framed text scan).Pairwise fun t u => t.start ≤ u.start := by
  refine List.pairwise_append.mpr ⟨?_, List.pairwise_singleton _ _, ?_⟩
  · exact List.pairwise_cons.mpr ⟨fun _ _ => Nat.zero_le _, pairwise_body text scan⟩
  · intro t ht u hu
    rw [List.mem_singleton.mp hu]
    rcases List.mem_cons.mp ht with rfl | ht
    · exact Nat.zero_le _
    · exact Nat.le_of_lt (of_mem_body ht).1

/-- A window of a stream around a token that is not of its frame. -/
theorem exists_body_of_window {w : Window} (hw : w ∈ Window.all (ofScan text scan).tokens)
    (hkind : w.current.kind.isPseudo = false) :
    ∃ above t below, body text scan = above ++ t :: below ∧
      w.current = place text (.ofText text) t ∧
      w.before = above.reverse.map (place text (.ofText text)) ++
        [place text (.ofText text) ⟨.streamStart, 0, 0⟩] := by
  have hparts := Window.eq_of_mem_all hw
  rw [tokens_ofScan] at hparts
  obtain ⟨front, back, hframed, hfront, hback⟩ := List.map_eq_append_iff.mp hparts
  obtain ⟨t, after, rfl, hcurrent, -⟩ := List.map_eq_cons_iff.mp hback
  have htkind : t.kind.isPseudo = false := by
    rw [← hcurrent] at hkind
    exact hkind
  cases front with
  | nil =>
    obtain ⟨rfl, -⟩ := List.cons.inj hframed
    exact absurd htkind (by simp [TokenKind.isPseudo])
  | cons first above =>
    obtain ⟨rfl, htail⟩ := List.cons.inj hframed
    have hbody : body text scan ++ [⟨.streamEnd, cutoff text scan, cutoff text scan⟩] =
        above ++ t :: after := htail
    rcases List.eq_nil_or_concat after with rfl | ⟨below, last, hafter⟩
    · obtain ⟨-, hlast⟩ := List.append_inj' hbody rfl
      obtain ⟨rfl, -⟩ := List.cons.inj hlast
      exact absurd htkind (by simp [TokenKind.isPseudo])
    · rw [hafter, List.concat_eq_append, ← List.cons_append, ← List.append_assoc] at hbody
      refine ⟨above, t, below, (List.append_inj' hbody rfl).1, hcurrent.symm, ?_⟩
      rw [← List.reverse_reverse w.before, ← hfront]
      simp

/-! ## Placing -/

/-- Put a raw token in its place, if its offsets have a text between them. -/
def place? (text : Text) (index : Index) (t : RawToken) : Option Token :=
  (slice? text t.start t.stop).map fun value =>
    ⟨t.kind, value, index.locate t.start, index.locate t.stop⟩

theorem place?_eq {t : RawToken} {piece : Text} (h : t.Spells text piece) (index : Index) :
    place? text index t = some (place text index t) := by
  rw [place?, place, h.slice?_eq]
  rfl

theorem mapM_place? {tokens : List RawToken} (h : ∀ t ∈ tokens, ∃ piece, t.Spells text piece)
    (index : Index) : tokens.mapM (place? text index) = some (tokens.map (place text index)) := by
  induction tokens with
  | nil => rfl
  | cons t tokens ih =>
    obtain ⟨piece, hspells⟩ := h t List.mem_cons_self
    rw [List.mapM_cons, place?_eq hspells, ih fun u hu => h u (List.mem_cons_of_mem _ hu)]
    rfl

theorem place_mark (kind : TokenKind) {offset : Nat} (h : isBoundary text offset = true)
    (index : Index) : place text index ⟨kind, offset, offset⟩ =
      ⟨kind, [], index.locate offset, index.locate offset⟩ := by
  rw [place, (RawToken.spells_mark kind h).slice?_eq]
  rfl

theorem noLater_tokens (text : Text) (scan : Scan) :
    (ofScan text scan).tokens.Pairwise fun t u => t.start.NoLater u.start := by
  rw [tokens_ofScan, List.pairwise_map]
  refine (pairwise_framed text scan).imp_of_mem fun {t u} ht hu hle => ?_
  obtain ⟨_, hspells⟩ := exists_spells_of_mem_framed ht
  obtain ⟨_, hspells'⟩ := exists_spells_of_mem_framed hu
  exact Index.locate_noLater hspells.isBoundary.1 hspells'.isBoundary.1 hle

/-- `tokens` are the tokens of a scan that is cut off at byte `cut`; the raw tokens between the two that
frame the stream are `body`. -/
structure Segmentation (text : Text) (scan : Scan) (cut : Nat) (body : List RawToken)
    (tokens : List Token) : Prop where
  /-- A fault cuts at its offset, clamped to the document and moved back to a boundary. -/
  cut_fault : ∀ e, scan.error = some e →
    IsGreatest {b | isBoundary text b = true ∧ b ≤ min e.offset (width text)} cut
  cut_end : scan.error = none → cut = width text
  /-- What the tokenizer reported soundly and before the cut, one line break for each line that ends
  before the cut, and nothing else. -/
  complete : body.Perm (kept text scan cut ++ breaks text cut)
  ordered : body.Pairwise fun t u => t.start ≤ u.start
  /-- At one and the same offset, what was reported there comes as it was reported, and a line break
  comes after it. -/
  ties : ∀ offset, body.filter (·.start == offset) =
    (kept text scan cut).filter (·.start == offset) ++
      (breaks text cut).filter (·.start == offset)
  /-- Every raw token has a text, and is placed with it. -/
  placed : List.mapM (place? text (.ofText text))
    (⟨.streamStart, 0, 0⟩ :: body ++ [⟨.streamEnd, cut, cut⟩]) = some tokens
  first : tokens.head? = some ⟨.streamStart, [], ⟨1, 1⟩, ⟨1, 1⟩⟩
  last : tokens.getLast? =
    some ⟨.streamEnd, [], (Index.ofText text).locate cut, (Index.ofText text).locate cut⟩
  monotone : tokens.Pairwise fun t u => t.start.NoLater u.start

/-- **Segmentation withstands any tokenizer.** -/
theorem segment_withstands (tokenizer : Tokenizer) (text : Text) :
    ∃ cut body, Segmentation text (tokenizer text) cut body (segment tokenizer text).tokens := by
  generalize hscan : tokenizer text = scan
  -- The tokens that frame the stream are marks at boundaries, the first of them at the beginning.
  have hstart := place_mark .streamStart (isBoundary_width [] text) (.ofText text)
  rw [width_nil, List.nil_append, Index.locate_zero] at hstart
  have hstop := place_mark .streamEnd (isBoundary_cutoff text scan) (.ofText text)
  refine ⟨cutoff text scan, body text scan, ?_⟩
  rw [segment, hscan]
  refine ⟨fun e he => isGreatest_cutoff he, fun hnone => ?_, ?_, pairwise_body text scan,
    fun offset => ?_, ?_, ?_, ?_, noLater_tokens text scan⟩
  · rw [cutoff, hnone]
  · rw [body_eq]
    exact List.mergeSort_perm _ _
  · -- Whatever starts at one offset ties, and line breaks are sorted behind what was reported.
    rw [body_eq, sortable_start.filter_mergeSort_of_ties, List.filter_append]
    intro a b ha hb
    rw [beq_iff_eq] at ha hb
    exact decide_eq_true (Nat.le_of_eq (ha.trans hb.symm))
  · exact mapM_place? (fun t ht => exists_spells_of_mem_framed ht) _
  · rw [tokens_ofScan, ← hstart]
    rfl
  · rw [tokens_ofScan, framed, List.map_append, List.getLast?_append, ← hstop]
    rfl

end TokenStream

end YamlStyle
