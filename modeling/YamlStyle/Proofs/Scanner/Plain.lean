import YamlStyle.Proofs.Scanner.Brackets
import YamlStyle.Proofs.Scanner.TokenEnd

/-!
# Plain scalars

A plain scalar is what nothing else claims, so there is no mark at which it begins and none at which it
ends. It ends in front of a character that stops it, and gives back the blanks before that character.
Which characters stop it depends on whether a collection is open.

`exists_plain` divides a text by this: the plain scalar, the blanks that it gives back, and what stopped
it. The scanner never asks whether the *first* character of a plain scalar would stop it. It has no need
to, because a character that would do so begins a token of another shape (`stopsPlain_of_plain`), and so
`yamlScanner_plain` holds of the first character, too.

A collection is open at a place if the check of `Brackets`, over the tokens in front of the place, leaves
an opening token unmatched. At the places of a scan this is what the scan itself remembers
(`Reaches.opensAt_eq`).
-/

set_option autoImplicit false

namespace YamlStyle

/-- Whether some opening token in front of a byte offset is matched by no closing one in front of it. -/
def Scan.opensAt (scan : Scan) (offset : Nat) : Bool :=
  ((scan.tokens.takeWhile fun t => decide (t.start < offset)).foldlM settle []).any (!·.isEmpty)

theorem Bracket.kind_ne_scalar (b : Bracket) : b.openKind ≠ .scalar ∧ b.closeKind ≠ .scalar := by
  cases b <;> decide

namespace Scanner

/-! ## Inside a collection -/

section

variable {text left : Text} {s here : State} {tokens : List RawToken}

theorem Reaches.start_lt (h : Reaches s text tokens here left) :
    ∀ t ∈ tokens, t.start < here.pos := by
  induction h with
  | start => simp
  | @step tokens here c rest found _ _ ih =>
    have hpos : 0 < width (c :: rest.take found.length) := width_pos (by simp)
    intro t ht
    rw [after_pos]
    rcases List.mem_append.mp ht with ht | ht
    · have hlt := ih t ht
      omega
    · cases found with
      | layout n => exact absurd ht List.not_mem_nil
      | token kind n =>
        obtain rfl := List.mem_singleton.mp ht
        show here.pos < here.pos + _
        omega

theorem le_start_of_mem_run {t : RawToken} (h : t ∈ (run s text).tokens) : s.pos ≤ t.start := by
  obtain ⟨_, _, -, htiling, -⟩ := exists_tiling_run s text
  exact htiling.pairwise.1 t h

/-- The tokens in front of a place are those that were read. -/
theorem Reaches.takeWhile_tokens (h : Reaches s text tokens here left) :
    ((run s text).tokens.takeWhile fun t => decide (t.start < here.pos)) = tokens := by
  have hread : ∀ t ∈ tokens, decide (t.start < here.pos) = true := by
    intro t ht
    exact decide_eq_true (h.start_lt t ht)
  have hleft : ((run here left).tokens.takeWhile fun t => decide (t.start < here.pos)) = [] := by
    cases hrun : (run here left).tokens with
    | nil => rfl
    | cons t rest =>
      have hle : here.pos ≤ t.start := le_start_of_mem_run (by rw [hrun]; exact List.mem_cons_self)
      rw [List.takeWhile_cons_of_neg (by simpa using hle)]
  rw [h.run_eq.1, List.takeWhile_append_of_pos hread, hleft, List.append_nil]

/-- **Whether a collection is open shows in the tokens.** -/
theorem Reaches.opensAt_eq (h : Reaches (.initial text) text tokens here left) :
    (yamlScanner text).opensAt here.pos = here.inFlow := by
  obtain ⟨stack, hstack, hmirrors⟩ := exists_mirrors h
  have hempty : stack.isEmpty = here.flow.isEmpty := by
    rw [Bool.eq_iff_iff, List.isEmpty_iff, List.isEmpty_iff, hmirrors.eq_nil_iff]
  rw [Scan.opensAt, yamlScanner, h.takeWhile_tokens, hstack, Option.any_some, hempty, State.inFlow]

end

/-! ## How far a plain scalar reaches -/

/-- `run` has no character that stops a plain scalar, and `stop` begins with one, `previous` being the
character in front. -/
structure PlainRun (inFlow : Bool) (previous : Char) (run stop : Text) : Prop where
  goes : ∀ inner c after, run = inner ++ c :: after →
    stopsPlain inFlow (inner.getLast?.getD previous) c (after ++ stop) = false
  stops : ∀ c after, stop = c :: after →
    stopsPlain inFlow (run.getLast?.getD previous) c after = true

theorem getLast?_cons_getD (c previous : Char) (text : Text) :
    (c :: text).getLast?.getD previous = text.getLast?.getD c := by
  rw [List.getLast?_cons]
  rfl

theorem PlainRun.nil {inFlow : Bool} {previous : Char} {stop : Text}
    (h : ∀ c after, stop = c :: after → stopsPlain inFlow previous c after = true) :
    PlainRun inFlow previous [] stop :=
  ⟨by simp, h⟩

theorem PlainRun.cons {inFlow : Bool} {previous c : Char} {run stop : Text}
    (h : PlainRun inFlow c run stop) (hc : stopsPlain inFlow previous c (run ++ stop) = false) :
    PlainRun inFlow previous (c :: run) stop where
  goes := by
    intro inner d after hparts
    cases inner with
    | nil =>
      obtain ⟨rfl, rfl⟩ := List.cons.inj hparts
      exact hc
    | cons e inner =>
      obtain ⟨rfl, hrest⟩ := List.cons.inj hparts
      rw [getLast?_cons_getD]
      exact h.goes inner d after hrest
  stops := by
    intro d after hstop
    rw [getLast?_cons_getD]
    exact h.stops d after hstop

theorem PlainRun.exists_of_mem {inFlow : Bool} {previous c : Char} {run stop : Text}
    (h : PlainRun inFlow previous run stop) (hc : c ∈ run) :
    ∃ before after, stopsPlain inFlow before c after = false := by
  obtain ⟨inner, after, hrun⟩ := List.append_of_mem hc
  exact ⟨_, _, h.goes inner c after hrun⟩

theorem exists_plain_append (inFlow : Bool) (previous : Char) (text : Text) :
    ∃ piece blanks stop, text = piece ++ (blanks ++ stop) ∧
      plainLength inFlow previous text = piece.length ∧ (∀ c ∈ piece.getLast?, isBlank c = false) ∧
      (∀ c ∈ blanks, isBlank c = true) ∧ PlainRun inFlow previous (piece ++ blanks) stop := by
  induction text generalizing previous with
  | nil => exact ⟨[], [], [], rfl, rfl, by simp, by simp, .nil (by simp)⟩
  | cons c text ih =>
    rw [plainLength]
    cases hc : stopsPlain inFlow previous c text with
    | true =>
      refine ⟨[], [], c :: text, rfl, rfl, by simp, by simp, .nil ?_⟩
      intro d after hstop
      obtain ⟨rfl, rfl⟩ := List.cons.inj hstop
      exact hc
    | false =>
      obtain ⟨piece, blanks, stop, rfl, hlength, hlast, hblanks, hrun⟩ := ih c
      rw [← List.append_assoc] at hc
      replace hrun := hrun.cons hc
      rw [if_neg (by simp), hlength]
      cases piece with
      | nil =>
        cases hblank : isBlank c with
        | true =>
          refine ⟨[], c :: blanks, stop, rfl, rfl, by simp, ?_, hrun⟩
          intro d hd
          rcases List.mem_cons.mp hd with rfl | hd
          · exact hblank
          · exact hblanks d hd
        | false =>
          refine ⟨[c], blanks, stop, rfl, rfl, ?_, hblanks, hrun⟩
          simpa using hblank
      | cons d piece =>
        refine ⟨c :: d :: piece, blanks, stop, rfl, rfl, ?_, hblanks, hrun⟩
        rw [List.getLast?_cons_cons]
        exact hlast

theorem plainLength_le_length (inFlow : Bool) (previous : Char) (text : Text) :
    plainLength inFlow previous text ≤ text.length := by
  obtain ⟨piece, blanks, stop, htext, hlength, -⟩ := exists_plain_append inFlow previous text
  rw [hlength, htext, List.length_append]
  exact Nat.le_add_right _ _

/-- **A plain scalar reaches to what stops it**, less the blanks. -/
theorem exists_plain {inFlow : Bool} {previous : Char} {text : Text} {n : Nat}
    (h : plainLength inFlow previous text = n) :
    ∃ blanks stop, text.drop n = blanks ++ stop ∧ (∀ c ∈ (text.take n).getLast?, isBlank c = false) ∧
      (∀ c ∈ blanks, isBlank c = true) ∧ PlainRun inFlow previous (text.take n ++ blanks) stop := by
  obtain ⟨piece, blanks, stop, rfl, hlength, hlast, hblanks, hrun⟩ :=
    exists_plain_append inFlow previous text
  obtain rfl : piece.length = n := hlength.symm.trans h
  rw [List.take_left, List.drop_left]
  exact ⟨blanks, stop, rfl, hlast, hblanks, hrun⟩

/-! ## The first character -/

theorem of_stopsPlain_eq_false {inFlow : Bool} {previous c : Char} {rest : Text}
    (h : stopsPlain inFlow previous c rest = false) :
    isBreak c = false ∧ (c = ':' → endsKey inFlow rest = false) ∧
      (inFlow = true → isFlowIndicator c = false) ∧ (c = '#' → isBlank previous = false) := by
  simp only [stopsPlain, Bool.or_eq_false_iff, Bool.and_eq_false_imp, beq_iff_eq] at h
  obtain ⟨⟨⟨hbreak, hcolon⟩, hflow⟩, hhash⟩ := h
  exact ⟨hbreak, hcolon, hflow, hhash⟩

theorem of_stopsPlain {inFlow : Bool} {previous c : Char} {rest : Text}
    (h : stopsPlain inFlow previous c rest = true) :
    isBreak c = true ∨ (c = ':' ∧ endsKey inFlow rest = true) ∨
      (inFlow = true ∧ isFlowIndicator c = true) ∨ (c = '#' ∧ isBlank previous = true) := by
  simpa [stopsPlain, or_assoc] using h

theorem of_isFlowIndicator {c : Char} (h : isFlowIndicator c = true) :
    c = ',' ∨ (∃ b, Bracket.ofOpening? c = some b) ∨ ∃ b, Bracket.ofClosing? c = some b := by
  simp only [isFlowIndicator, Bool.or_eq_true, beq_iff_eq] at h
  rcases h with (((rfl | rfl) | rfl) | rfl) | rfl
  · exact Or.inl rfl
  · exact Or.inr (Or.inl ⟨.square, rfl⟩)
  · exact Or.inr (Or.inr ⟨.square, rfl⟩)
  · exact Or.inr (Or.inl ⟨.curly, rfl⟩)
  · exact Or.inr (Or.inr ⟨.curly, rfl⟩)

/-- A character that would stop a plain scalar does not begin one. -/
theorem stopsPlain_of_plain {s : State} {c : Char} {rest : Text} (h : shapeAt s c rest = .plain)
    (previous : Char) : isBlank c = false ∧ stopsPlain s.inFlow previous c rest = false := by
  revert h
  fun_cases shapeAt s c rest
  case case18 hblank hbreak hhash _ _ _ _ _ hkey hentry _ _ _ _ hopen hclose _ =>
    intro _
    have hflow : ¬ (s.inFlow && isFlowIndicator c) = true := by
      intro h
      obtain ⟨hin, hc⟩ := (Bool.and_eq_true _ _).mp h
      rcases of_isFlowIndicator hc with rfl | ⟨b, hb⟩ | ⟨b, hb⟩
      · exact hentry (by simpa using hin)
      · exact hopen b hb
      · exact hclose b hb
    exact ⟨Bool.eq_false_iff.mpr hblank, by simp [stopsPlain, hbreak, hkey, hflow, hhash]⟩
  all_goals exact fun h => Shape.noConfusion h

theorem plain_of_lexeme {s : State} {c : Char} {rest : Text} {n : Nat}
    (h : lexeme s c rest = .ok (.token .scalar n)) (hc : ∀ quote : Quote, c ≠ quote.char) :
    shapeAt s c rest = .plain ∧ n = plainLength s.inFlow c rest := by
  rw [lexeme_eq_read] at h
  revert h
  fun_cases shapeAt s c rest
  case case10 =>
    intro h
    exact absurd (Lexeme.token.inj (Except.ok.inj h)).1 (Bracket.kind_ne_scalar _).1
  case case11 =>
    intro h
    exact absurd (Lexeme.token.inj (eq_of_closeFlow h)).1.symm (Bracket.kind_ne_scalar _).2
  case case16 =>
    intro _
    exact absurd (Quote.eq_char_of_ofChar? ‹_›) (hc _)
  case case18 =>
    intro h
    exact ⟨rfl, (Lexeme.token.inj (Except.ok.inj h)).2.symm⟩
  all_goals exact fun h => absurd h (by simp [Shape.read])

end Scanner

/-! ## The theorem -/

/-- A plain scalar is `piece`, with `front` before it and `back` behind it. -/
structure IsPlain (inFlow : Bool) (front piece back : Text) : Prop where
  nonempty : piece ≠ []
  first : ∀ c ∈ piece.head?, isBlank c = false
  last : ∀ c ∈ piece.getLast?, isBlank c = false
  flat : ∀ c ∈ piece, isBreak c = false
  /-- No colon is followed by a blank, a break or the end, nor by a flow indicator in a collection. -/
  colons : ∀ inner after, piece = inner ++ ':' :: after → Scanner.endsKey inFlow (after ++ back) = false
  /-- No `#` stands behind a blank. -/
  hashes : ∀ inner after, piece = inner ++ '#' :: after →
    ∀ c ∈ (front ++ inner).getLast?, isBlank c = false
  indicators : inFlow = true → ∀ c ∈ piece, Scanner.isFlowIndicator c = false
  /-- Behind it and some blanks is something that a plain scalar cannot have. -/
  maximal : ∃ blanks stop, back = blanks ++ stop ∧ (∀ c ∈ blanks, isBlank c = true) ∧
    ∀ c after, stop = c :: after → isBreak c = true ∨
      (c = ':' ∧ Scanner.endsKey inFlow after = true) ∨
      (inFlow = true ∧ Scanner.isFlowIndicator c = true) ∨ (c = '#' ∧ blanks ≠ [])
  /-- Counting comes to the same end if it begins with the first character, so that no step has to be
  forced. -/
  unforced : ∀ previous, Scanner.plainLength inFlow previous (piece ++ back) = piece.length

namespace Scanner

theorem plainLength_cons {inFlow : Bool} {previous c : Char} {rest : Text}
    (hblank : isBlank c = false) (hgoes : stopsPlain inFlow previous c rest = false) :
    plainLength inFlow previous (c :: rest) = plainLength inFlow c rest + 1 := by
  rw [plainLength, if_neg (by simp [hgoes])]
  cases plainLength inFlow c rest with
  | zero => simp [hblank]
  | succ n => rfl

/-- What a plain scalar and its surroundings are like, if `piece` is as far as it reaches. -/
theorem isPlain_of_run {inFlow : Bool} {piece blanks stop : Text} (hne : piece ≠ [])
    (hfirst : ∀ c ∈ piece.head?, isBlank c = false) (hlast : ∀ c ∈ piece.getLast?, isBlank c = false)
    (hblanks : ∀ c ∈ blanks, isBlank c = true) (hrun : PlainRun inFlow ' ' (piece ++ blanks) stop)
    (hcount : ∀ previous, plainLength inFlow previous (piece ++ (blanks ++ stop)) = piece.length)
    (front : Text) : IsPlain inFlow front piece (blanks ++ stop) := by
  have hgoes : ∀ inner c after, piece = inner ++ c :: after →
      stopsPlain inFlow (inner.getLast?.getD ' ') c (after ++ (blanks ++ stop)) = false := by
    intro inner c after hpiece
    rw [← List.append_assoc]
    apply hrun.goes
    rw [hpiece, List.append_assoc, List.cons_append]
  have hmem : ∀ c ∈ piece, ∃ previous after, stopsPlain inFlow previous c after = false :=
    fun c hc => hrun.exists_of_mem (List.mem_append_left blanks hc)
  refine ⟨hne, hfirst, hlast, ?_, ?_, ?_, ?_, ⟨blanks, stop, rfl, hblanks, ?_⟩, hcount⟩
  · intro c hc
    obtain ⟨previous, after, hc⟩ := hmem c hc
    exact (of_stopsPlain_eq_false hc).1
  · intro inner after hpiece
    exact (of_stopsPlain_eq_false (hgoes inner ':' after hpiece)).2.1 rfl
  · intro inner after hpiece c hc
    have hprevious := (of_stopsPlain_eq_false (hgoes inner '#' after hpiece)).2.2.2 rfl
    -- In front of a `#` is a character of the scalar, as the scalar does not begin with one.
    cases hinner : inner.getLast? with
    | none =>
      rw [hinner] at hprevious
      exact absurd hprevious (by decide)
    | some d =>
      rw [List.getLast?_append, hinner] at hc
      obtain rfl := Option.some.inj hc
      rwa [hinner] at hprevious
  · intro hin c hc
    obtain ⟨previous, after, hc⟩ := hmem c hc
    exact (of_stopsPlain_eq_false hc).2.2.1 hin
  · intro c after hstop
    rcases of_stopsPlain (hrun.stops c after hstop) with h | h | h | ⟨rfl, hprevious⟩
    · exact Or.inl h
    · exact Or.inr (Or.inl h)
    · exact Or.inr (Or.inr (Or.inl h))
    · refine Or.inr (Or.inr (Or.inr ⟨rfl, ?_⟩))
      rintro rfl
      rw [List.append_nil, List.getLast?_eq_some_getLast hne, Option.getD_some] at hprevious
      rw [hlast _ (List.getLast?_eq_some_getLast hne)] at hprevious
      exact absurd hprevious (by simp)

theorem isPlain_of_shapeAt {s : State} {c : Char} {rest : Text} (h : shapeAt s c rest = .plain)
    (front : Text) :
    IsPlain s.inFlow front (c :: rest.take (plainLength s.inFlow c rest))
      (rest.drop (plainLength s.inFlow c rest)) := by
  have hblank := (stopsPlain_of_plain h ' ').1
  have hcount : ∀ previous, plainLength s.inFlow previous (c :: rest) =
      plainLength s.inFlow c rest + 1 :=
    fun previous => plainLength_cons hblank (stopsPlain_of_plain h previous).2
  obtain ⟨blanks, stop, hback, hlast, hblanks, hrun⟩ := exists_plain (hcount ' ')
  rw [List.drop_succ_cons] at hback
  rw [List.take_succ_cons] at hlast hrun
  rw [hback]
  refine isPlain_of_run (by simp) (by simpa using hblank) hlast hblanks hrun ?_ front
  intro previous
  rw [← hback, List.cons_append, List.take_append_drop, hcount previous, List.length_cons,
    List.length_take_of_le (plainLength_le_length ..)]

end Scanner

/-- **Plain scalars are maximal and well formed.** -/
theorem yamlScanner_plain {text : Text} {t : RawToken} (ht : t ∈ (yamlScanner text).tokens)
    (hkind : t.kind = .scalar) (hquote : ∀ quote : Quote, charAt? text t.start ≠ some quote.char) :
    ∃ front piece back, text = front ++ (piece ++ back) ∧ t.start = width front ∧
      t.stop = width front + width piece ∧
      IsPlain ((yamlScanner text).opensAt t.start) front piece back := by
  obtain ⟨before, place, front, c, rest, n, hplace, htext, hfound, hstart, hstop⟩ := exists_place ht
  have hc : ∀ quote : Quote, c ≠ quote.char := by
    rintro quote rfl
    apply hquote quote
    rw [hstart, htext, charAt?_width]
    rfl
  rw [hkind] at hfound
  obtain ⟨hshape, rfl⟩ := Scanner.plain_of_lexeme hfound hc
  refine ⟨front, _, rest.drop (Scanner.plainLength place.inFlow c rest), ?_, hstart, hstop, ?_⟩
  · rw [List.cons_append, List.take_append_drop]
    exact htext
  · rw [hstart, ← hplace.pos_eq htext, hplace.opensAt_eq]
    exact Scanner.isPlain_of_shapeAt hshape front

/-- A plain scalar with a colon and a `#` inside, and a comment behind it. -/
def locator : Text := "[at: http://x#y # z\n]".toList

theorem yamlScanner_plain_locator : ⟨.scalar, 5, 15⟩ ∈ (yamlScanner locator).tokens ∧
    ∃ front piece back, locator = front ++ (piece ++ back) ∧ 5 = width front ∧
      15 = width front + width piece ∧ IsPlain true front piece back := by
  have hmem : ⟨.scalar, 5, 15⟩ ∈ (yamlScanner locator).tokens := by decide +kernel
  have hquote : ∀ quote : Quote, charAt? locator 5 ≠ some quote.char := by
    intro quote
    cases quote <;> decide +kernel
  have hopen : (yamlScanner locator).opensAt 5 = true := by decide +kernel
  have hplain := yamlScanner_plain hmem rfl hquote
  rw [hopen] at hplain
  exact ⟨hmem, hplain⟩

end YamlStyle
