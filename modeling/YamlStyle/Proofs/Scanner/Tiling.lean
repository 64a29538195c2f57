import Mathlib.Data.List.TakeWhile
import YamlStyle.Proofs.Scanner.Shape
import YamlStyle.Proofs.Token.Spells

/-!
# A scan tiles what it has read

What a scan has read is a sequence of **tiles**: characters of the layout, which belong to no token,
and the texts of the tokens, each non-empty and each starting where the tile before it ends.
`Tiling` is that picture, `exists_tiling_run` says that every run of the scanner draws it, whatever
the shapes answer, and everything about the order, the extent and the coverage of tokens is read off
the picture and not off the scanner.

Where the scanner stops is not part of its answer. `stopOffset` follows the run and returns the place,
so that what a fault says about the place can be compared with where the run really ended.
-/

set_option autoImplicit false

namespace YamlStyle

/-- The characters that belong to no token. -/
def isLayout (c : Char) : Bool := isBlank c || isBreak c

/-- Their bytes: space, tab, LF and CR. -/
def layoutBytes : List UInt8 := [0x20, 0x09, 0x0A, 0x0D]

theorem take_length_takeWhile (p : Char → Bool) (text : Text) :
    text.take (text.takeWhile p).length = text.takeWhile p :=
  (List.prefix_iff_eq_take.mp (List.takeWhile_prefix p)).symm

theorem utf8EncodeChar_of_isLayout {c : Char} (h : isLayout c = true) :
    ∃ b ∈ layoutBytes, String.utf8EncodeChar c = [b] := by
  simp only [isLayout, isBlank, isBreak, Bool.or_eq_true, beq_iff_eq] at h
  rcases h with (rfl | rfl) | (rfl | rfl)
  · exact ⟨0x20, by decide, rfl⟩
  · exact ⟨0x09, by decide, rfl⟩
  · exact ⟨0x0A, by decide, rfl⟩
  · exact ⟨0x0D, by decide, rfl⟩

theorem Bracket.kind_ne_comment (b : Bracket) : b.openKind ≠ .comment ∧ b.closeKind ≠ .comment := by
  cases b <;> decide

namespace Scanner

/-! ## Tilings -/

/-- `Tiling start text tokens`: from byte `start` on, `text` is a sequence of layout characters and of
the texts of `tokens`, in this order. A comment does not reach over the end of a line. -/
inductive Tiling : Nat → Text → List RawToken → Prop
  | done (start : Nat) : Tiling start [] []
  | layout {start : Nat} {c : Char} {rest : Text} {tokens : List RawToken} :
      isLayout c = true → Tiling (start + c.utf8Size) rest tokens → Tiling start (c :: rest) tokens
  | token {start : Nat} {piece rest : Text} {tokens : List RawToken} (kind : TokenKind) :
      piece ≠ [] → (kind = .comment → ∀ c ∈ piece, isBreak c = false) →
      Tiling (start + width piece) rest tokens →
      Tiling start (piece ++ rest) (⟨kind, start, start + width piece⟩ :: tokens)

namespace Tiling

variable {start : Nat} {text : Text} {tokens : List RawToken}

/-- A stretch of layout in front of a tiling. -/
theorem layouts {piece : Text} (hpiece : ∀ c ∈ piece, isLayout c = true)
    (h : Tiling (start + width piece) text tokens) : Tiling start (piece ++ text) tokens := by
  induction piece generalizing start with
  | nil => exact h
  | cons c cs ih =>
    have hcs : ∀ d ∈ cs, isLayout d = true := fun d hd => hpiece d (List.mem_cons_of_mem _ hd)
    refine .layout (hpiece c List.mem_cons_self) (ih hcs ?_)
    rwa [width_cons, ← Nat.add_assoc] at h

/-- Every token is a non-empty piece of the text. -/
theorem exists_piece (h : Tiling start text tokens) {t : RawToken} (ht : t ∈ tokens) :
    ∃ front piece back, text = front ++ (piece ++ back) ∧ piece ≠ [] ∧
      t.start = start + width front ∧ t.stop = t.start + width piece ∧
      (t.kind = .comment → ∀ c ∈ piece, isBreak c = false) := by
  induction h with
  | done start => exact absurd ht List.not_mem_nil
  | @layout start c rest tokens hc _ ih =>
    obtain ⟨front, piece, back, rfl, hne, hstart, hrest⟩ := ih ht
    exact ⟨c :: front, piece, back, rfl, hne, by rw [hstart, width_cons, Nat.add_assoc], hrest⟩
  | @token start piece rest tokens kind hne hcomment _ ih =>
    rcases List.mem_cons.mp ht with rfl | ht
    · exact ⟨[], piece, rest, rfl, hne, rfl, rfl, hcomment⟩
    · obtain ⟨front, piece', back, rfl, hne', hstart, hrest⟩ := ih ht
      refine ⟨piece ++ front, piece', back, (List.append_assoc ..).symm, hne', ?_, hrest⟩
      rw [hstart, width_append, Nat.add_assoc]

/-- A token ends where the next one starts, or before. -/
theorem pairwise (h : Tiling start text tokens) :
    (∀ t ∈ tokens, start ≤ t.start) ∧ tokens.Pairwise fun a b => a.stop ≤ b.start := by
  induction h with
  | done start => exact ⟨fun t ht => absurd ht List.not_mem_nil, List.Pairwise.nil⟩
  | @layout start c rest tokens hc _ ih =>
    exact ⟨fun t ht => Nat.le_trans (Nat.le_add_right _ _) (ih.1 t ht), ih.2⟩
  | @token start piece rest tokens kind hne _ _ ih =>
    refine ⟨fun t ht => ?_, List.pairwise_cons.mpr ⟨ih.1, ih.2⟩⟩
    rcases List.mem_cons.mp ht with rfl | ht
    · exact Nat.le_refl _
    · exact Nat.le_trans (Nat.le_add_right _ _) (ih.1 t ht)

/-- A byte outside every token is one of the layout. -/
theorem covered (h : Tiling start text tokens) {i : Nat} {b : UInt8}
    (hb : (bytes text)[i]? = some b) :
    (∃ t ∈ tokens, t.start ≤ start + i ∧ start + i < t.stop) ∨ b ∈ layoutBytes := by
  induction h generalizing i with
  | done start => simp [bytes] at hb
  | @layout start c rest tokens hc _ ih =>
    -- A layout character is a single byte: it is the one asked for, or the tiles behind have it.
    obtain ⟨b', hb', hencode⟩ := utf8EncodeChar_of_isLayout hc
    have hsize : c.utf8Size = 1 := by rw [← String.length_utf8EncodeChar, hencode]; rfl
    have hbytes : bytes (c :: rest) = b' :: bytes rest := by
      rw [bytes, List.flatMap_cons, hencode]
      rfl
    rw [hbytes] at hb
    cases i with
    | zero =>
      obtain rfl := Option.some.inj hb
      exact Or.inr hb'
    | succ i =>
      have := ih hb
      rwa [hsize, Nat.add_assoc, Nat.add_comm 1 i] at this
  | @token start piece rest tokens kind hne _ _ ih =>
    by_cases hi : i < width piece
    · exact Or.inl ⟨_, List.mem_cons_self, Nat.le_add_right _ _, Nat.add_lt_add_left hi start⟩
    · have hge : width piece ≤ i := Nat.le_of_not_lt hi
      rw [bytes_append, List.getElem?_append_right (by simpa using hge), length_bytes] at hb
      rcases ih hb with ⟨t, ht, hstart, hstop⟩ | hlayout
      · exact Or.inl ⟨t, List.mem_cons_of_mem _ ht, by omega, by omega⟩
      · exact Or.inr hlayout

end Tiling

/-! ## Where a run stops -/

/-- The byte offset at which a run stops: the end of the text, or the place of a character at which
nothing can be read. -/
def stopOffset (s : State) : Text → Nat
  | [] => s.pos
  | c :: rest =>
    match lexeme s c rest with
    | .error _ => s.pos
    | .ok found =>
      stopOffset (s.after found (c :: rest.take found.length) (rest.drop found.length))
        (rest.drop found.length)
termination_by text => text.length
decreasing_by rw [List.length_drop, List.length_cons]; omega

/-! ## What a step does to the state -/

@[simp] theorem track_pos (s : State) (kind : TokenKind) : (s.track kind).pos = s.pos := by
  cases kind <;> rfl

theorem advance_pos (s : State) (taken rest : Text) :
    (s.advance taken rest).pos = s.pos + width taken := by
  unfold State.advance
  cases lastLine? taken <;> rfl

theorem advance_flow (s : State) (taken rest : Text) : (s.advance taken rest).flow = s.flow := by
  unfold State.advance
  cases lastLine? taken <;> rfl

@[simp] theorem after_pos (s : State) (found : Lexeme) (taken rest : Text) :
    (s.after found taken rest).pos = s.pos + width taken := by
  cases found with
  | layout n => exact advance_pos s taken rest
  | token kind n => rw [State.after, advance_pos, track_pos]

/-- A step and what it leaves are what it found. -/
theorem after_pos_add_width (s : State) (found : Lexeme) (c : Char) (rest : Text) (n : Nat) :
    (s.after found (c :: rest.take n) (rest.drop n)).pos + width (rest.drop n) =
      s.pos + width (c :: rest) := by
  rw [after_pos, Nat.add_assoc, ← width_append, List.cons_append, List.take_append_drop]

theorem after_layout_flow (s : State) (n : Nat) (taken rest : Text) :
    (s.after (.layout n) taken rest).flow = s.flow := advance_flow s taken rest

theorem after_token_flow (s : State) (kind : TokenKind) (n : Nat) (taken rest : Text) :
    (s.after (.token kind n) taken rest).flow = (s.track kind).flow :=
  advance_flow (s.track kind) taken rest

/-- A collection that is open after a token was open before it, or is opened by it. -/
theorem mem_track_flow {s : State} {kind : TokenKind} {entry : Bracket × Nat}
    (h : entry ∈ (s.track kind).flow) : entry ∈ s.flow ∨ entry.2 = s.pos := by
  cases kind with
  | flowSequenceStart | flowMappingStart =>
    rcases List.mem_cons.mp h with rfl | h
    · exact Or.inr rfl
    · exact Or.inl h
  | flowSequenceEnd | flowMappingEnd => exact Or.inl (List.mem_of_mem_tail h)
  | _ => exact Or.inl h

@[simp] theorem consToken_error (s : State) (found : Lexeme) (next : State) (scan : Scan) :
    (consToken s found next scan).error = scan.error := by
  cases found <;> rfl

/-! ## A run draws a tiling -/

/-- Layout is read where the layout is, and takes nothing else along. -/
theorem isLayout_of_lexeme {s : State} {c : Char} {rest : Text} {n : Nat}
    (h : lexeme s c rest = .ok (.layout n)) : ∀ d ∈ c :: rest.take n, isLayout d = true := by
  rw [lexeme_eq_read] at h
  generalize hshape : shapeAt s c rest = shape at h
  cases shape with
  | blanks =>
    obtain rfl := Lexeme.layout.inj (Except.ok.inj h)
    intro d hd
    rw [take_length_takeWhile] at hd
    rcases List.mem_cons.mp hd with rfl | hd
    · simp [isLayout, isBlank_of_shapeAt hshape]
    · simp [isLayout, List.mem_takeWhile_imp hd]
  | ending =>
    obtain rfl := Lexeme.layout.inj (Except.ok.inj h)
    intro d hd
    rcases List.mem_cons.mp hd with rfl | hd
    · simp [isLayout, isBreak_of_shapeAt hshape]
    · -- A break takes another character along only if that is the LF of a CR LF.
      split at hd
      · rename_i hcrlf
        cases rest with
        | nil => simp at hd
        | cons e rest =>
          have he : e = '\n' := by simpa using (Bool.and_eq_true _ _ |>.mp hcrlf).2
          have hde : d = e := by simpa using hd
          rw [hde, he]
          decide
      · simp at hd
  | closing bracket => exact absurd (eq_of_closeFlow h) (by simp)
  | quoted quote =>
    obtain ⟨m, -, hfound⟩ := exists_of_quotedScalar h
    exact absurd hfound (by simp)
  | line kind | marker kind | indicator kind | name kind => simp [Shape.read] at h
  | block | plain => simp [Shape.read] at h

/-- A comment is read to the end of its line. -/
theorem comment_of_lexeme {s : State} {c : Char} {rest : Text} {n : Nat}
    (h : lexeme s c rest = .ok (.token .comment n)) : c = '#' ∧ n = lineLength rest := by
  revert h
  fun_cases lexeme s c rest
  case case3 hblank hbreak hc =>
    intro h
    exact ⟨beq_iff_eq.mp hc, (Lexeme.token.inj (Except.ok.inj h)).2.symm⟩
  case case10 =>
    intro h
    exact absurd (Lexeme.token.inj (Except.ok.inj h)).1 (Bracket.kind_ne_comment _).1
  case case11 =>
    intro h
    exact absurd (Lexeme.token.inj (eq_of_closeFlow h)).1.symm (Bracket.kind_ne_comment _).2
  case case16 =>
    intro h
    obtain ⟨m, -, hfound⟩ := exists_of_quotedScalar h
    exact absurd hfound (by simp)
  all_goals exact fun h => absurd h (by simp)

theorem take_lineLength (rest : Text) : rest.take (lineLength rest) = lineContent rest :=
  take_length_takeWhile _ rest

theorem isBreak_of_comment {s : State} {c : Char} {rest : Text} {n : Nat}
    (h : lexeme s c rest = .ok (.token .comment n)) : ∀ d ∈ c :: rest.take n, isBreak d = false := by
  obtain ⟨rfl, rfl⟩ := comment_of_lexeme h
  intro d hd
  rw [take_lineLength] at hd
  rcases List.mem_cons.mp hd with rfl | hd
  · decide
  · simpa using List.mem_takeWhile_imp hd

/-- **Every run draws a tiling** of what it takes off the front of the text, and stops behind it. -/
theorem exists_tiling_run (s : State) (text : Text) :
    ∃ taken left, text = taken ++ left ∧ Tiling s.pos taken (run s text).tokens ∧
      stopOffset s text = s.pos + width taken := by
  fun_induction run s text with
  | case1 s => exact ⟨[], [], rfl, .done _, by simp [stopOffset]⟩
  | case2 s c rest fault h => exact ⟨[], c :: rest, rfl, .done _, by simp [stopOffset, h]⟩
  | case3 s c rest found h next ih =>
    obtain ⟨taken, left, hdrop, htiling, hstop⟩ := ih
    have hpos : next.pos = s.pos + width (c :: rest.take found.length) := after_pos ..
    rw [hpos] at htiling hstop
    refine ⟨(c :: rest.take found.length) ++ taken, left, ?_, ?_, ?_⟩
    · rw [List.cons_append, List.cons_append, List.append_assoc, ← hdrop, List.take_append_drop]
    · cases found with
      | layout n => exact htiling.layouts (isLayout_of_lexeme h)
      | token kind n =>
        show Tiling s.pos _ (⟨kind, s.pos, next.pos⟩ :: _)
        rw [hpos]
        refine .token kind (by simp) ?_ htiling
        rintro rfl
        exact isBreak_of_comment h
    · rw [stopOffset, h]
      show stopOffset next _ = _
      rw [hstop, width_append, Nat.add_assoc]

end Scanner

end YamlStyle
