import YamlStyle.Proofs.Scanner.Layout
import YamlStyle.Proofs.Scanner.Lockstep
import YamlStyle.Proofs.Scanner.Lookahead

/-!
# Documents put together at a line end

A text that ends a line, scans without a fault and does not end in a block scalar leaves nothing
behind: no open collection, no line begun, no scalar that could still grow. Scanning two such texts
together is scanning them apart, with the second one further right (`yamlScanner_append`).

The **seam** is the state a scan would be in at that place if it had just begun. The run over the
first text is followed step by step, each step being the same with the second text behind it, down to
the last ending. There, and only there, the two texts touch: a CR at the end of the first and an LF at
the start of the second are one ending of the whole and two endings of the parts.
-/

set_option autoImplicit false

namespace YamlStyle

namespace Scanner

variable {s : State} {c : Char} {rest : Text}

/-! ## The seam -/

/-- The state of a scan that begins at byte `offset`. -/
def State.seam (offset : Nat) (text : Text) : State := (State.initial text).mapOffsets (· + offset)

@[simp] theorem State.seam_pos (offset : Nat) (text : Text) : (State.seam offset text).pos = offset :=
  Nat.zero_add offset

@[simp] theorem State.seam_flow (offset : Nat) (text : Text) : (State.seam offset text).flow = [] :=
  rfl

theorem run_seam (offset : Nat) (text : Text) :
    run (.seam offset text) text = (yamlScanner text).mapOffsets (· + offset) :=
  run_mapOffsets_add offset (.initial text) text

theorem State.advance_ending {e : Text} (h : lastLine? e = some (e, [])) (hflow : s.flow = [])
    (back : Text) : s.advance e back = .seam (s.pos + width e) back := by
  obtain ⟨pos, lineStart, indent, flow⟩ := s
  subst hflow
  simp [State.advance, h, State.seam, State.initial, State.mapOffsets]

theorem lastLine?_singleton (h : isBreak c = true) : lastLine? [c] = some ([c], []) := by
  simp [lastLine?, h]

/-- The last ending of a text and whatever comes behind it. An LF behind a CR belongs to the same
ending, but read by itself it leads to the same place. -/
theorem run_ending_append (hc : isBreak c = true) (hflow : s.flow = []) (back : Text) :
    run s (c :: back) = run (.seam (s.pos + width [c]) back) back := by
  have hlayout : isLayout c = true := by simp [isLayout, hc]
  rw [run_layout_cons hlayout, State.advance_ending (lastLine?_singleton hc) hflow]

theorem run_crlf_append (hflow : s.flow = []) (back : Text) :
    run s ('\r' :: '\n' :: back) = run (.seam (s.pos + width ['\r', '\n']) back) back := by
  have hcr : isBreak '\r' = true := by decide
  have hlf : isBreak '\n' = true := by decide
  -- The two breaks, one after the other: what is behind the first is a seam of its own.
  rw [run_ending_append hcr hflow, run_ending_append hlf (State.seam_flow ..), State.seam_pos,
    Nat.add_assoc]
  rfl

theorem endError_eq_none_iff : endError s = none ↔ s.flow = [] := by
  simp [endError]

/-- A state that looks at the text ahead looks at the spaces of the line it is on, and no further. -/
theorem State.after_append {found : Lexeme} (taken : Text) (hends : EndsLine rest) (back : Text) :
    s.after found taken (rest ++ back) = s.after found taken rest := by
  have hadvance : ∀ s : State, s.advance taken (rest ++ back) = s.advance taken rest := by
    intro s
    unfold State.advance
    cases lastLine? taken with
    | none => rfl
    | some cut =>
      obtain ⟨front, last⟩ := cut
      simp only
      rw [← List.append_assoc, (hends.append last).leadingSpaces_append]
  cases found with
  | layout n => exact hadvance s
  | token kind n => exact hadvance (s.track kind)

/-- A block scalar that would run to the end of the text is the last token of its run. -/
theorem finishes_of_getLast?
    (hlast : ∀ t, (run s (c :: rest)).tokens.getLast? = some t → t.kind ≠ .blockScalar)
    (hshape : shapeAt s c rest = .block) : Finishes s.indent (lineBelow rest) := by
  refine Classical.byContradiction fun hfin => ?_
  have hblock : lexeme s c rest = .ok (.token .blockScalar (blockLength s.indent rest)) := by
    rw [lexeme_eq_read, hshape]
    rfl
  have hleft := isLayout_of_not_finishes hfin
    fun d (hd : d ∈ (lineEnding rest).text) => isLayout_of_mem_ending hd
  rw [← drop_blockLength] at hleft
  rw [run, hblock] at hlast
  simp only [consToken, Lexeme.length, run_layout hleft] at hlast
  exact hlast _ rfl rfl

theorem getLast?_consToken {found : Lexeme} {next : State} {scan : Scan} {t : RawToken}
    (h : scan.tokens.getLast? = some t) :
    (consToken s found next scan).tokens.getLast? = some t := by
  cases found with
  | layout n => exact h
  | token kind n => rw [consToken, List.getLast?_cons, h]; rfl

theorem consToken_append (found : Lexeme) (next : State) (front back : Scan) :
    consToken s found next ⟨front.tokens ++ back.tokens, back.error⟩ =
      ⟨(consToken s found next front).tokens ++ back.tokens, back.error⟩ := by
  cases found <;> rfl

/-- At the last ending of a text nothing is open, and the seam follows. -/
theorem run_last_ending {e : Text} (hlayout : ∀ c ∈ e, isLayout c = true)
    (herror : (run s e).error = none) {back : Text}
    (hrun : s.flow = [] → run s (e ++ back) = run (.seam (s.pos + width e) back) back) :
    run s (e ++ back) =
      ⟨(run s e).tokens ++ (run (.seam (s.pos + width e) back) back).tokens,
        (run (.seam (s.pos + width e) back) back).error⟩ := by
  rw [run_layout hlayout] at herror ⊢
  exact hrun (endError_eq_none_iff.mp herror)

/-- A step that leaves something is the same step with more text behind. -/
theorem run_step_append {found : Lexeme} (hends : EndsLine rest)
    (hfound : lexeme s c rest = .ok found)
    (hblock : shapeAt s c rest = .block → Finishes s.indent (lineBelow rest))
    (hne : rest.drop found.length ≠ []) (back : Text) :
    run s (c :: (rest ++ back)) =
      consToken s found (s.after found (c :: rest.take found.length) (rest.drop found.length))
        (run (s.after found (c :: rest.take found.length) (rest.drop found.length))
          (rest.drop found.length ++ back)) := by
  have hle : found.length ≤ rest.length := by
    rw [ne_eq, List.drop_eq_nil_iff] at hne
    omega
  rw [run, lexeme_append hends hfound hblock]
  simp only
  rw [List.take_append_of_le_length hle, List.drop_append_of_le_length hle,
    State.after_append _ (hends.of_drop hne)]

/-- **A run does not depend on what follows a line end**, and what follows is scanned as if it stood
alone. -/
theorem run_append {text : Text} (hends : EndsLine text) (herror : (run s text).error = none)
    (hlast : ∀ t, (run s text).tokens.getLast? = some t → t.kind ≠ .blockScalar) (back : Text) :
    run s (text ++ back) =
      ⟨(run s text).tokens ++ (run (.seam (s.pos + width text) back) back).tokens,
        (run (.seam (s.pos + width text) back) back).error⟩ := by
  fun_induction run s text with
  | case1 s => exact absurd rfl hends.ne_nil
  | case2 s c rest fault hfault => exact absurd herror (by simp)
  | case3 s c rest found hfound next ih =>
    have hunfold : run s (c :: rest) =
        consToken s found next (run next (rest.drop found.length)) := by
      rw [run, hfound]
    by_cases hrest : rest = []
    · -- The last character: a break, and the seam is behind it.
      subst hrest
      have hc := hends.isBreak_of_singleton
      rw [← hunfold] at herror ⊢
      refine run_last_ending (by simp [isLayout, hc]) herror fun hflow => ?_
      exact run_ending_append hc hflow back
    · have hends' := hends.of_cons hrest
      rw [← hunfold] at hlast
      have hblock := finishes_of_getLast? hlast
      rcases drop_lexeme_ne_nil hends' hfound hblock with hne | ⟨rfl, rfl⟩
      · -- Something is left, and it ends a line again.
        rw [consToken_error] at herror
        rw [hunfold] at hlast
        have hrun := ih (hends'.of_drop hne) herror fun t ht => hlast t (getLast?_consToken ht)
        have hpos : next.pos + width (rest.drop found.length) = s.pos + width (c :: rest) :=
          after_pos_add_width s found c rest found.length
        rw [List.cons_append, run_step_append hends' hfound hblock hne, hrun, hpos]
        exact consToken_append found next _ _
      · -- The last two characters are CR LF.
        rw [← hunfold] at herror ⊢
        refine run_last_ending (by simp [isLayout, isBreak]) herror fun hflow => ?_
        exact run_crlf_append hflow back

end Scanner

/-- **Scanning is compositional at line ends.** -/
theorem yamlScanner_append {front : Text} (hends : front = [] ∨ EndsLine front)
    (herror : (yamlScanner front).error = none)
    (hlast : ∀ t, (yamlScanner front).tokens.getLast? = some t → t.kind ≠ .blockScalar)
    (back : Text) :
    yamlScanner (front ++ back) =
      { tokens := (yamlScanner front).tokens ++
          (yamlScanner back).tokens.map (·.mapOffsets (· + width front))
        error := (yamlScanner back).error.map (·.mapOffsets (· + width front)) } := by
  rcases hends with rfl | hends
  · have hnil : (yamlScanner []).tokens = [] := by rw [yamlScanner, Scanner.run]
    rw [hnil]
    exact Scanner.run_seam 0 back
  · have hinitial : Scanner.State.initial (front ++ back) = .initial front := by
      rw [Scanner.State.initial, hends.leadingSpaces_append, Scanner.State.initial]
    have hrun := Scanner.run_append hends herror hlast back
    have hpos : (Scanner.State.initial front).pos + width front = width front := Nat.zero_add _
    rw [Scanner.run_seam, hpos] at hrun
    rw [yamlScanner, hinitial, hrun]
    rfl

/-- A CR at the end of one text and an LF at the start of the other. The second text is faulty, and
its fault moves along. -/
theorem yamlScanner_append_crlf :
    (yamlScanner "- a: 'b'\r".toList).error = none ∧
    (yamlScanner "- a: 'b'\r".toList).tokens =
      [⟨.blockEntry, 0, 1⟩, ⟨.scalar, 2, 3⟩, ⟨.value, 3, 4⟩, ⟨.scalar, 5, 8⟩] ∧
    yamlScanner ("- a: 'b'\r".toList ++ "\n[c\n".toList) =
      { tokens := (yamlScanner "- a: 'b'\r".toList).tokens ++
          (yamlScanner "\n[c\n".toList).tokens.map (·.mapOffsets (· + 9))
        error := some ⟨10, .unclosed .square⟩ } := by
  have hscan : yamlScanner "- a: 'b'\r".toList =
      ⟨[⟨.blockEntry, 0, 1⟩, ⟨.scalar, 2, 3⟩, ⟨.value, 3, 4⟩, ⟨.scalar, 5, 8⟩], none⟩ := by
    decide +kernel
  have hfault : (yamlScanner "\n[c\n".toList).error = some ⟨1, .unclosed .square⟩ := by
    decide +kernel
  have herror : (yamlScanner "- a: 'b'\r".toList).error = none := by rw [hscan]
  have hlast : ∀ t, (yamlScanner "- a: 'b'\r".toList).tokens.getLast? = some t →
      t.kind ≠ .blockScalar := by
    rw [hscan]
    rintro t ht
    rw [← Option.some.inj ht]
    decide
  refine ⟨herror, by rw [hscan], ?_⟩
  have happend := yamlScanner_append (Or.inr ⟨"- a: 'b'".toList, '\r', by decide, by decide⟩)
    herror hlast "\n[c\n".toList
  rw [hfault] at happend
  exact happend

end YamlStyle
