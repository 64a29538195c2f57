import YamlStyle.Proofs.Scanner.Tiling

/-!
# No byte is lost and none is read twice

The tokens of a scan and the layout between them partition what was scanned. `yamlScanner_partition`
says so for every document: the tokens are non-empty pieces of it between character boundaries, in
order and apart from each other, and every byte before the place where the scan stopped that lies in
none of them is a space, a tab, a CR or an LF.

It also says where that place is. A quoted scalar without an end and a closing bracket that closes
nothing or the wrong thing stop the scan where they are reported. Nothing else stops it before the
end: a collection that is left open is noticed only there, and is reported at the bracket that opened
it, which is the start of a token and so not inside of one.
-/

set_option autoImplicit false

namespace YamlStyle

/-- Whether a fault stops a scan on the spot. -/
def ScanFault.isFatal : ScanFault → Bool
  | .unterminated _ | .mismatched _ _ | .unexpected _ => true
  | .unclosed _ | .reported _ => false

namespace Scanner

/-! ## Where faults are reported -/

theorem isFatal_of_closeFlow {s : State} {bracket : Bracket} {fault : ScanFault}
    (h : closeFlow s bracket = .error fault) : fault.isFatal = true := by
  unfold closeFlow at h
  split at h
  · cases h
    rfl
  · split at h
    · exact absurd h (by simp)
    · cases h
      rfl

theorem isFatal_of_quotedScalar {quote : Quote} {rest : Text} {fault : ScanFault}
    (h : quotedScalar quote rest = .error fault) : fault.isFatal = true := by
  unfold quotedScalar at h
  split at h
  · exact absurd h (by simp)
  · cases h
    rfl

/-- Whatever a step fails with stops the scan. -/
theorem isFatal_of_lexeme {s : State} {c : Char} {rest : Text} {fault : ScanFault}
    (h : lexeme s c rest = .error fault) : fault.isFatal = true := by
  rw [lexeme_eq_read] at h
  generalize shapeAt s c rest = shape at h
  cases shape with
  | closing bracket => exact isFatal_of_closeFlow h
  | quoted quote => exact isFatal_of_quotedScalar h
  | blanks | ending | block | plain => simp [Shape.read] at h
  | line kind | marker kind | indicator kind | name kind => simp [Shape.read] at h

theorem mem_consToken_tokens {s : State} {found : Lexeme} {next : State} {scan : Scan}
    {t : RawToken} (h : t ∈ scan.tokens) : t ∈ (consToken s found next scan).tokens := by
  cases found with
  | layout n => exact h
  | token kind n => exact List.mem_cons_of_mem _ h

/-- A fatal fault is reported where the run stops. -/
theorem offset_eq_stopOffset {s : State} {text : Text} {e : ScanError}
    (h : (run s text).error = some e) (hfatal : e.fault.isFatal = true) :
    e.offset = stopOffset s text := by
  fun_induction run s text with
  | case1 s =>
    obtain ⟨⟨bracket, offset⟩, -, rfl⟩ := Option.map_eq_some_iff.mp h
    exact absurd hfatal (by simp [ScanFault.isFatal])
  | case2 s c rest fault hlex =>
    obtain rfl := Option.some.inj h
    simp [stopOffset, hlex]
  | case3 s c rest found hlex next ih =>
    rw [consToken_error] at h
    rw [stopOffset, hlex]
    exact ih h

/-- Without a fatal fault a run goes on to the end. -/
theorem stopOffset_eq_end {s : State} {text : Text}
    (h : ∀ e, (run s text).error = some e → e.fault.isFatal = false) :
    stopOffset s text = s.pos + width text := by
  fun_induction run s text with
  | case1 s => simp [stopOffset]
  | case2 s c rest fault hlex =>
    have hnot := h _ rfl
    rw [isFatal_of_lexeme hlex] at hnot
    exact absurd hnot (by simp)
  | case3 s c rest found hlex next ih =>
    simp only [consToken_error] at h
    rw [stopOffset, hlex]
    show stopOffset next (rest.drop found.length) = s.pos + width (c :: rest)
    rw [ih h]
    exact after_pos_add_width s found c rest found.length

/-- A collection that is left open was open before, or is reported at the start of a token. -/
theorem offset_of_not_isFatal {s : State} {text : Text} {e : ScanError}
    (h : (run s text).error = some e) (hfatal : e.fault.isFatal = false) :
    (∃ entry ∈ s.flow, entry.2 = e.offset) ∨ ∃ t ∈ (run s text).tokens, t.start = e.offset := by
  fun_induction run s text with
  | case1 s =>
    obtain ⟨entry, hentry, rfl⟩ := Option.map_eq_some_iff.mp h
    exact Or.inl ⟨entry, List.mem_of_mem_head? hentry, rfl⟩
  | case2 s c rest fault hlex =>
    obtain rfl := Option.some.inj h
    rw [isFatal_of_lexeme hlex] at hfatal
    exact absurd hfatal (by simp)
  | case3 s c rest found hlex next ih =>
    rw [consToken_error] at h
    rcases ih h with ⟨entry, hentry, hoffset⟩ | ⟨t, ht, hstart⟩
    · -- Open behind this step: it was open before, or the token of this step opened it.
      cases found with
      | layout n => exact Or.inl ⟨entry, after_layout_flow s n _ _ ▸ hentry, hoffset⟩
      | token kind n =>
        rcases mem_track_flow (after_token_flow s kind n _ _ ▸ hentry) with hold | hnew
        · exact Or.inl ⟨entry, hold, hoffset⟩
        · exact Or.inr ⟨_, List.mem_cons_self, hnew.symm.trans hoffset⟩
    · exact Or.inr ⟨t, mem_consToken_tokens ht, hstart⟩

end Scanner

/-! ## What a scan says about a document -/

variable {text : Text}

theorem exists_taken (text : Text) :
    ∃ taken left, text = taken ++ left ∧ Scanner.Tiling 0 taken (yamlScanner text).tokens ∧
      Scanner.stopOffset (.initial text) text = width taken := by
  obtain ⟨taken, left, htext, htiling, hstop⟩ := Scanner.exists_tiling_run (.initial text) text
  exact ⟨taken, left, htext, htiling, hstop.trans (Nat.zero_add _)⟩

/-- Every token spells a non-empty piece of what was read, on one line if it is a comment. -/
theorem exists_spells {t : RawToken} (ht : t ∈ (yamlScanner text).tokens) :
    ∃ piece, t.Spells text piece ∧ piece ≠ [] ∧
      t.stop ≤ Scanner.stopOffset (.initial text) text ∧
      (t.kind = .comment → ∀ c ∈ piece, isBreak c = false) := by
  obtain ⟨taken, left, htext, htiling, hstop⟩ := exists_taken text
  obtain ⟨front, piece, back, rfl, hne, hstart, hend, hcomment⟩ := htiling.exists_piece ht
  rw [Nat.zero_add] at hstart
  rw [hstart] at hend
  refine ⟨piece, ⟨front, back ++ left, ?_, hstart, hend⟩, hne, ?_, hcomment⟩
  · rw [htext, List.append_assoc, List.append_assoc]
  · rw [hstop, hend, width_append, width_append]
    omega

/-- Every token has some bytes, all of them before the place where the scan stopped. -/
theorem extent_of_mem_tokens {t : RawToken} (ht : t ∈ (yamlScanner text).tokens) :
    t.start < t.stop ∧ t.stop ≤ Scanner.stopOffset (.initial text) text := by
  obtain ⟨piece, ⟨front, back, -, hstart, hend⟩, hne, hle, -⟩ := exists_spells ht
  have hpos := width_pos hne
  exact ⟨by omega, hle⟩

theorem pairwise_tokens (text : Text) :
    (yamlScanner text).tokens.Pairwise fun a b => a.stop ≤ b.start := by
  obtain ⟨_, _, -, htiling, -⟩ := exists_taken text
  exact htiling.pairwise.2

/-- A fatal fault is reported where the scan stopped. A collection that is left open is reported at
the start of a token, as nothing was open at the start. -/
theorem offset_of_error {e : ScanError} (he : (yamlScanner text).error = some e) :
    e.offset = Scanner.stopOffset (.initial text) text ∨
      ∃ t ∈ (yamlScanner text).tokens, t.start = e.offset := by
  cases hfatal : e.fault.isFatal with
  | true => exact Or.inl (Scanner.offset_eq_stopOffset he hfatal)
  | false =>
    rcases Scanner.offset_of_not_isFatal he hfatal with ⟨entry, hentry, -⟩ | htoken
    · exact absurd hentry List.not_mem_nil
    · exact Or.inr htoken

theorem isBoundary_of_error {e : ScanError} (he : (yamlScanner text).error = some e) :
    isBoundary text e.offset = true := by
  rcases offset_of_error he with hstop | ⟨t, ht, hstart⟩
  · obtain ⟨taken, left, htext, -, hend⟩ := exists_taken text
    exact isBoundary_iff.mpr ⟨taken, left, htext, hstop.trans hend⟩
  · obtain ⟨piece, hspells, -⟩ := exists_spells ht
    rw [← hstart]
    exact hspells.isBoundary.1

/-! ## The partition -/

/-- A scan that stopped at byte `stop` partitions the document up to there. -/
structure Partition (text : Text) (scan : Scan) (stop : Nat) : Prop where
  /-- Every token has some bytes, all of them before the stop and so in the document. -/
  extent : ∀ t ∈ scan.tokens, t.start < t.stop ∧ t.stop ≤ stop
  boundary : ∀ t ∈ scan.tokens, isBoundary text t.start = true ∧ isBoundary text t.stop = true
  /-- The tokens come in order and do not overlap. -/
  ordered : scan.tokens.Pairwise fun a b => a.stop ≤ b.start
  /-- A byte before the stop is in a token or is a space, a tab, a CR or an LF. -/
  covered : ∀ i b, i < stop → (bytes text)[i]? = some b →
    (∃ t ∈ scan.tokens, t.start ≤ i ∧ i < t.stop) ∨ b ∈ layoutBytes
  /-- The scan stopped at its fatal fault, if it has one, and at the end of the document if not. -/
  stopped : (∀ e, scan.error = some e → e.fault.isFatal = true → stop = e.offset) ∧
    ((∀ e, scan.error = some e → e.fault.isFatal = false) → stop = width text)
  inside : stop ≤ width text
  /-- A fault is reported between two characters, and not strictly inside a token. -/
  fault : ∀ e, scan.error = some e → isBoundary text e.offset = true ∧
    ∀ t ∈ scan.tokens, ¬ (t.start < e.offset ∧ e.offset < t.stop)

/-- The start of a token is not strictly inside a token. -/
theorem not_inside_of_start {tokens : List RawToken}
    (hordered : tokens.Pairwise fun a b => a.stop ≤ b.start)
    (hextent : ∀ t ∈ tokens, t.start < t.stop) {u : RawToken} (hu : u ∈ tokens) :
    ∀ t ∈ tokens, ¬ (t.start < u.start ∧ u.start < t.stop) := by
  induction tokens with
  | nil => exact absurd hu List.not_mem_nil
  | cons v tokens ih =>
    obtain ⟨hbehind, hordered⟩ := List.pairwise_cons.mp hordered
    have hv := hextent v List.mem_cons_self
    intro t ht
    rcases List.mem_cons.mp hu with rfl | hu'
    · rcases List.mem_cons.mp ht with rfl | ht'
      · omega
      · have := hbehind t ht'
        omega
    · rcases List.mem_cons.mp ht with rfl | ht'
      · have := hbehind u hu'
        omega
      · exact ih hordered (fun t ht => hextent t (List.mem_cons_of_mem _ ht)) hu' t ht'

/-- **The scanner partitions every document.** -/
theorem yamlScanner_partition (text : Text) :
    Partition text (yamlScanner text) (Scanner.stopOffset (.initial text) text) := by
  obtain ⟨taken, left, htext, htiling, hstop⟩ := exists_taken text
  refine ⟨fun t ht => extent_of_mem_tokens ht, ?_, pairwise_tokens text, ?_, ⟨?_, ?_⟩, ?_, ?_⟩
  · intro t ht
    obtain ⟨piece, hspells, -⟩ := exists_spells ht
    exact hspells.isBoundary
  · intro i b hi hb
    rw [hstop] at hi
    rw [htext, bytes_append, List.getElem?_append_left (by simpa using hi)] at hb
    simpa only [Nat.zero_add] using htiling.covered hb
  · intro e he hfatal
    exact (Scanner.offset_eq_stopOffset he hfatal).symm
  · intro h
    exact (Scanner.stopOffset_eq_end h).trans (Nat.zero_add _)
  · rw [hstop, htext, width_append]
    exact Nat.le_add_right _ _
  · intro e he
    refine ⟨isBoundary_of_error he, ?_⟩
    rcases offset_of_error he with hend | ⟨u, hu, hstart⟩
    · intro t ht hin
      have := (extent_of_mem_tokens ht).2
      omega
    · rw [← hstart]
      exact not_inside_of_start (pairwise_tokens text) (fun t ht => (extent_of_mem_tokens ht).1) hu

end YamlStyle
