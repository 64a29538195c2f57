import YamlStyle.Proofs.Json.Lexeme
import YamlStyle.Proofs.Scanner.Gap
import YamlStyle.Proofs.Scanner.Locality
import YamlStyle.Proofs.Scanner.Markers

/-!
# A colon glued to what follows it

Behind a quoted key in a flow collection a colon needs no blank after it, so that taking the blanks away
should change nothing. The scanner sees it otherwise. A colon counts only if a blank, a break, the end or
a flow indicator follows, and glued to anything else it begins a plain scalar, which takes along what used
to be tokens of their own. The text scans without an error all the same, as long as the plain scalar does
not end **inside** of a comment or a quoted scalar, whose other half would then be read by itself
(`yamlScanner_unspaced`). Where it does, all is lost: `yamlScanner_unspaced_torn`.

The proof follows three stretches of the text. Up to the colon both scans are one and the same, because
neither looks past the quote of the key (`Reaches.congr`). Then one of them reads tokens and the other a
plain scalar, until the first comes to the place where the plain scalar ends, too (`rejoins`). From
there on they are in lockstep, and differ by the blanks that are missing (`run_past_gap`).
-/

set_option autoImplicit false

namespace YamlStyle

/-- A comment or a quoted scalar. Read from the middle on, it would be something else. -/
def RawToken.IsSealed (text : Text) (t : RawToken) : Prop :=
  t.kind = .comment ∨ t.kind = .scalar ∧ ∃ quote : Quote, charAt? text t.start = some quote.char

/-- No comment and no quoted scalar of a text goes on over a byte offset. -/
def TearsNothing (text : Text) (offset : Nat) : Prop :=
  ∀ t ∈ (yamlScanner text).tokens, t.IsSealed text → ¬ (t.start < offset ∧ offset < t.stop)

instance (p : Quote → Prop) [DecidablePred p] : Decidable (∃ quote, p quote) :=
  decidable_of_iff (p .single ∨ p .double)
    ⟨fun h => h.elim (⟨_, ·⟩) (⟨_, ·⟩), by rintro ⟨quote, h⟩; cases quote <;> simp [h]⟩

instance (text : Text) (t : RawToken) : Decidable (t.IsSealed text) :=
  inferInstanceAs (Decidable (_ ∨ _))

instance (text : Text) (offset : Nat) : Decidable (TearsNothing text offset) :=
  inferInstanceAs (Decidable (∀ t ∈ _, _))

variable {text : Text}

namespace Scanner

variable {s : State} {c : Char} {rest : Text} {found : Lexeme}

/-! ## Where the two scans meet again -/

theorem plainLength_of_pos {inFlow : Bool} {previous : Char}
    (h : 0 < plainLength inFlow previous (c :: rest)) :
    plainLength inFlow previous (c :: rest) = plainLength inFlow c rest + 1 := by
  rw [plainLength] at h ⊢
  split
  · rename_i hstops
    rw [if_pos hstops] at h
    exact absurd h (by simp)
  · rename_i hgoes
    rw [if_neg hgoes] at h
    cases hcount : plainLength inFlow c rest with
    | zero =>
      rw [hcount] at h
      by_cases hblank : isBlank c = true
      · simp [hblank] at h
      · simp [hblank]
    | succ n => rfl

/-- The rest of a plain scalar reaches as far as the whole. -/
theorem exists_plainLength_drop {inFlow : Bool} {previous : Char} {text : Text} {n : Nat}
    (h : n ≤ plainLength inFlow previous text) :
    ∃ before, plainLength inFlow previous text = n + plainLength inFlow before (text.drop n) := by
  induction n generalizing previous text with
  | zero => exact ⟨previous, (Nat.zero_add _).symm⟩
  | succ n ih =>
    cases text with
    | nil => exact absurd h (by simp [plainLength])
    | cons c rest =>
      have hcount := plainLength_of_pos (Nat.lt_of_lt_of_le (Nat.succ_pos n) h)
      rw [hcount] at h ⊢
      obtain ⟨before, hbefore⟩ := ih (Nat.le_of_succ_le_succ h)
      refine ⟨before, ?_⟩
      rw [hbefore, List.drop_succ_cons]
      omega

theorem of_mem_plain {inFlow : Bool} {previous d : Char} {text : Text}
    (h : d ∈ text.take (plainLength inFlow previous text)) :
    isBreak d = false ∧ (inFlow = true → isFlowIndicator d = false) := by
  obtain ⟨blanks, stop, -, -, -, hrun⟩ := exists_plain (n := plainLength inFlow previous text) rfl
  obtain ⟨before, after, hgoes⟩ := hrun.exists_of_mem (List.mem_append_left blanks h)
  obtain ⟨hbreak, -, hflow, -⟩ := of_stopsPlain_eq_false hgoes
  exact ⟨hbreak, hflow⟩

/-- A plain scalar that ends within a name ends in front of a colon, which is the end of the name. -/
theorem name_of_inside {previous : Char} (hpos : 0 < plainLength true previous (c :: rest))
    (hle : plainLength true previous (c :: rest) ≤ nameLength rest) :
    nameLength rest = plainLength true previous (c :: rest) ∧
      ∃ tail, (c :: rest).drop (plainLength true previous (c :: rest)) = ':' :: tail ∧
        endsKey true tail = true := by
  obtain ⟨n, hn⟩ := Nat.exists_eq_succ_of_ne_zero (Nat.ne_of_gt hpos)
  obtain ⟨blanks, stop, hdrop, hlast, hblanks, hrun⟩ := exists_plain hn
  rw [hn, nameLength] at hle ⊢
  have hparts := congrArg (List.drop n) (List.takeWhile_append_dropWhile
    (p := fun c => !(isBlank c || isBreak c || isFlowIndicator c)) (l := rest))
  rw [List.drop_append_of_le_length (by omega)] at hparts
  rw [List.drop_succ_cons, ← hparts] at hdrop ⊢
  have hsome := List.length_drop (i := n)
    (l := rest.takeWhile fun c => !(isBlank c || isBreak c || isFlowIndicator c))
  have hmem : ∀ d ∈ (rest.takeWhile fun c => !(isBlank c || isBreak c || isFlowIndicator c)).drop n,
      isBlank d = false ∧ isBreak d = false ∧ isFlowIndicator d = false := by
    intro d hd
    have hname := List.mem_takeWhile_imp (List.mem_of_mem_drop hd)
    simpa [and_assoc] using hname
  generalize (rest.takeWhile fun c => !(isBlank c || isBreak c || isFlowIndicator c)).drop n = name
    at hdrop hsome hmem ⊢
  generalize rest.dropWhile _ = after at hdrop ⊢
  cases name with
  | nil =>
    simp only [List.length_nil] at hsome
    omega
  | cons d name =>
    obtain ⟨hblank, hbreak, hflow⟩ := hmem d List.mem_cons_self
    -- No blank is given back here, so that the plain scalar was stopped by a character of the name.
    have hstop : stopsPlain true (((c :: rest).take (n + 1)).getLast?.getD previous) d (name ++ after) =
        true := by
      cases blanks with
      | nil =>
        rw [List.append_nil] at hrun
        exact hrun.stops d _ hdrop.symm
      | cons b blanks =>
        have hd := hblanks b List.mem_cons_self
        rw [← (List.cons.inj hdrop).1, hblank] at hd
        exact absurd hd (by simp)
    obtain ⟨rfl, hkey⟩ : d = ':' ∧ endsKey true (name ++ after) = true := by
      rcases of_stopsPlain hstop with h | h | h | ⟨-, h⟩
      · exact absurd (hbreak.symm.trans h) (by simp)
      · exact h
      · exact absurd (hflow.symm.trans h.2) (by simp)
      · rw [List.getLast?_eq_some_getLast (by simp)] at h hlast
        exact absurd ((hlast _ rfl).symm.trans h) (by simp)
    cases name with
    | nil =>
      simp only [List.length_cons, List.length_nil] at hsome
      exact ⟨by omega, after, rfl, hkey⟩
    | cons x name =>
      obtain ⟨hblank, hbreak, hflow⟩ := hmem x (List.mem_cons_of_mem _ List.mem_cons_self)
      exact absurd hkey (by simp [endsKey, isSeparated, hblank, hbreak, hflow])

theorem line_of_shapeAt {kind : TokenKind} (h : shapeAt s c rest = .line kind) :
    kind = .comment ∨ s.atLineStart = true := by
  revert h
  fun_cases shapeAt s c rest
  case case3 => exact fun h => Or.inl (Shape.line.inj h).symm
  case case6 hdirective => exact fun _ => Or.inr (Bool.and_eq_true _ _ |>.mp hdirective).1
  all_goals exact fun h => Shape.noConfusion h

theorem atLineStart_of_marker {kind : TokenKind} (h : shapeAt s c rest = .marker kind) :
    s.atLineStart = true := by
  revert h
  fun_cases shapeAt s c rest
  case case4 hmarker => exact fun _ => (Bool.and_eq_true _ _ |>.mp hmarker).1
  case case5 hmarker => exact fun _ => (Bool.and_eq_true _ _ |>.mp hmarker).1
  all_goals exact fun h => Shape.noConfusion h

theorem not_inFlow_of_block (h : shapeAt s c rest = .block) : s.inFlow = false := by
  revert h
  fun_cases shapeAt s c rest
  case case17 =>
    intro _
    have hblock : ((c == '|' || c == '>') && !s.inFlow) = true := ‹_›
    simpa using (Bool.and_eq_true _ _ |>.mp hblock).2
  all_goals exact fun h => Shape.noConfusion h

/-- A plain scalar does not end within blanks. -/
theorem blanks_lt_plainLength {inFlow : Bool} {previous : Char} (hc : isBlank c = true)
    (hpos : 0 < plainLength inFlow previous (c :: rest)) :
    (rest.takeWhile isBlank).length < plainLength inFlow previous (c :: rest) := by
  by_contra hle
  obtain ⟨n, hn⟩ := Nat.exists_eq_succ_of_ne_zero (Nat.ne_of_gt hpos)
  obtain ⟨blanks, stop, -, hlast, -⟩ := exists_plain hn
  rw [List.take_succ_cons, List.getLast?_eq_some_getLast (by simp)] at hlast
  have hmem := List.getLast_mem (l := c :: rest.take n) (by simp)
  have hblank : ∀ d ∈ c :: rest.take n, isBlank d = true := by
    intro d hd
    rcases List.mem_cons.mp hd with rfl | hd
    · exact hc
    · rw [← List.takeWhile_append_dropWhile (p := isBlank) (l := rest),
        List.take_append_of_le_length (by omega)] at hd
      exact List.mem_takeWhile_imp (List.mem_of_mem_take hd)
  exact absurd ((hlast _ rfl).symm.trans (hblank _ hmem)) (by simp)

/-- **What a plain scalar can end inside of**: a comment, a quoted scalar, or a name of which it leaves
the colon at the end. -/
theorem inside_cases {previous : Char} (hfound : lexeme s c rest = .ok found)
    (hflow : s.inFlow = true) (hline : s.atLineStart = false)
    (hpos : 0 < plainLength true previous (c :: rest))
    (hle : plainLength true previous (c :: rest) ≤ found.length) :
    (∃ kind n, found = .token kind n ∧ n ≤ rest.length ∧
      (kind = .comment ∨ kind = .scalar ∧ ∃ quote : Quote, c = quote.char)) ∨
    (found.length = plainLength true previous (c :: rest) ∧
      ∃ tail, (c :: rest).drop (plainLength true previous (c :: rest)) = ':' :: tail ∧
        endsKey true tail = true) := by
  rw [lexeme_eq_read] at hfound
  generalize hshape : shapeAt s c rest = shape at hfound
  cases shape with
  | blanks =>
    obtain rfl := Except.ok.inj hfound
    exact absurd hle (Nat.not_le_of_lt (blanks_lt_plainLength (isBlank_of_shapeAt hshape) hpos))
  | ending =>
    rw [plainLength_of_isBreak (isBreak_of_shapeAt hshape)] at hpos
    exact absurd hpos (by simp)
  | line kind =>
    rcases line_of_shapeAt hshape with rfl | hstart
    · have hlength : lineLength rest ≤ rest.length := (List.takeWhile_prefix _).length_le
      exact Or.inl ⟨.comment, _, (Except.ok.inj hfound).symm, hlength, Or.inl rfl⟩
    · exact absurd (hline.symm.trans hstart) (by simp)
  | marker kind => exact absurd (hline.symm.trans (atLineStart_of_marker hshape)) (by simp)
  | indicator kind =>
    obtain rfl := Except.ok.inj hfound
    exact absurd hle (Nat.not_le_of_lt hpos)
  | closing bracket =>
    obtain rfl := eq_of_closeFlow hfound
    exact absurd hle (Nat.not_le_of_lt hpos)
  | name kind =>
    obtain rfl := Except.ok.inj hfound
    exact Or.inr (name_of_inside hpos hle)
  | quoted quote =>
    obtain ⟨n, hn, rfl⟩ := exists_of_quotedScalar hfound
    have hchar := char_of_shapeAt_quoted hshape
    exact Or.inl ⟨.scalar, n, rfl, quotedLength?_le hn, Or.inr ⟨rfl, quote, hchar⟩⟩
  | block => exact absurd (hflow.symm.trans (not_inFlow_of_block hshape)) (by simp)
  | plain =>
    obtain rfl := Except.ok.inj hfound
    obtain ⟨hblank, hgoes⟩ := stopsPlain_of_plain hshape previous
    rw [hflow] at hgoes
    rw [plainLength_cons hblank hgoes, hflow] at hle
    exact absurd hle (Nat.not_succ_le_self _)

section

variable {tokens : List RawToken} {left : Text}

theorem Reaches.charAt?_eq (h : Reaches (.initial text) text tokens s (c :: rest)) :
    charAt? text s.pos = some c := by
  obtain ⟨taken, htext, -⟩ := h.exists_taken
  have hchar := charAt?_width taken (c :: rest)
  rw [h.pos_eq htext, htext, hchar]
  rfl

theorem Reaches.mem_tokens {kind : TokenKind} {n : Nat}
    (h : Reaches (.initial text) text tokens s (c :: rest))
    (hfound : lexeme s c rest = .ok (.token kind n)) :
    ⟨kind, s.pos, s.pos + width (c :: rest.take n)⟩ ∈ (yamlScanner text).tokens := by
  have hrun : (yamlScanner text).tokens = _ := (h.step hfound).run_eq.1
  rw [hrun]
  simp [Lexeme.tokens, Lexeme.length]

theorem Reaches.exists_lexeme (h : Reaches (.initial text) text tokens s (c :: rest))
    (herror : (yamlScanner text).error = none) : ∃ found, lexeme s c rest = .ok found := by
  cases hfound : lexeme s c rest with
  | error fault =>
    have hrun := h.run_eq.2
    rw [run, hfound] at hrun
    exact absurd (herror.symm.trans hrun) (by simp)
  | ok found => exact ⟨found, rfl⟩

theorem width_take_lt {m n : Nat} (h : m < n) (hn : n ≤ left.length) :
    width (left.take m) < width (left.take n) := by
  obtain ⟨k, rfl⟩ := Nat.exists_eq_add_of_lt h
  have hne : (left.drop m).take (k + 1) ≠ [] := by
    apply List.ne_nil_of_length_pos
    rw [List.length_take, List.length_drop]
    omega
  have hpos := width_pos hne
  rw [Nat.add_assoc, List.take_add, width_append]
  omega

/-- A comment or a quoted scalar is torn at every place inside of it. -/
theorem Reaches.torn {kind : TokenKind} {k n : Nat}
    (h : Reaches (.initial text) text tokens s (c :: rest))
    (hfound : lexeme s c rest = .ok (.token kind k))
    (hkind : kind = .comment ∨ kind = .scalar ∧ ∃ quote : Quote, c = quote.char)
    (hpos : 0 < n) (hle : n ≤ k) (hk : k ≤ rest.length) :
    ¬ TearsNothing text (s.pos + width ((c :: rest).take n)) := by
  intro hwhole
  have hsealed : RawToken.IsSealed text ⟨kind, s.pos, s.pos + width (c :: rest.take k)⟩ := by
    rcases hkind with rfl | ⟨rfl, quote, rfl⟩
    · exact Or.inl rfl
    · exact Or.inr ⟨rfl, quote, h.charAt?_eq⟩
  have hbefore : width ((c :: rest).take 0) < width ((c :: rest).take n) :=
    width_take_lt hpos (Nat.le_trans hle (Nat.le_succ_of_le hk))
  have hbehind : width ((c :: rest).take n) < width ((c :: rest).take (k + 1)) :=
    width_take_lt (Nat.lt_succ_of_le hle) (Nat.succ_le_succ hk)
  apply hwhole _ (h.mem_tokens hfound) hsealed
  exact ⟨Nat.lt_add_of_pos_right hbefore, Nat.add_lt_add_left hbehind _⟩

/-- A scan that is in the state `s` comes to a place `n` characters further on. There may be a colon left
in front of that place, to be read as what it is. -/
def Rejoins (text : Text) (s : State) (left : Text) (n : Nat) : Prop :=
  ∃ tokens more after, left.drop n = more ++ after ∧
    (more = [] ∨ more = [':'] ∧ endsKey true after = true) ∧
    Reaches (.initial text) text tokens (s.past (left.take n ++ more)) after

theorem Rejoins.of_past {taken : Text} {n : Nat} (h : Rejoins text (s.past taken) left n) :
    Rejoins text s (taken ++ left) (taken.length + n) := by
  obtain ⟨tokens, more, after, hdrop, hmore, hreaches⟩ := h
  refine ⟨tokens, more, after, ?_, hmore, ?_⟩
  · rw [drop_append_length_add, hdrop]
  · rw [List.take_length_add_append, List.append_assoc, State.past_append]
    exact hreaches

/-- Reading a name comes to the end of a plain scalar that leaves the colon of the name. -/
theorem Rejoins.of_name {n : Nat} {tail : Text}
    (h : Reaches (.initial text) text tokens s (c :: rest)) (hfound : lexeme s c rest = .ok found)
    (hc : isFlowIndicator c = false) (hflat : ∀ d ∈ (c :: rest).take n, isBreak d = false)
    (hlength : found.length = n) (htail : (c :: rest).drop n = ':' :: tail)
    (hkey : endsKey true tail = true) : Rejoins text s (c :: rest) n := by
  have htake : c :: rest.take found.length = (c :: rest).take n ++ [':'] := by
    rw [hlength, ← List.take_succ_cons, List.take_add, htail]
    rfl
  have hdrop : rest.drop found.length = tail := by
    rw [hlength, ← List.drop_succ_cons (a := c), ← List.drop_drop, htail]
    rfl
  have hbreak : ∀ d ∈ (c :: rest).take n ++ [':'], isBreak d = false := by
    intro d hd
    rcases List.mem_append.mp hd with hd | hd
    · exact hflat d hd
    · rw [List.mem_singleton.mp hd]
      decide
  have hstep := h.step hfound
  rw [htake, hdrop, after_eq_past hfound hc hbreak] at hstep
  exact ⟨_, [':'], tail, htail, Or.inr ⟨rfl, hkey⟩, hstep⟩

/-- **Two scans meet again** where a plain scalar ends that one of them reads in place of tokens. -/
theorem rejoins {s : State} {tokens : List RawToken} {left : Text} {previous : Char} {n : Nat}
    (h : Reaches (.initial text) text tokens s left) (herror : (yamlScanner text).error = none)
    (hflow : s.inFlow = true) (hline : s.lineStart < s.pos) (hn : plainLength true previous left = n)
    (hwhole : TearsNothing text (s.pos + width (left.take n))) : Rejoins text s left n := by
  rcases Nat.eq_zero_or_pos n with rfl | hpos
  · exact ⟨tokens, [], left, rfl, Or.inl rfl, h⟩
  cases left with
  | nil =>
    rw [← hn] at hpos
    exact absurd hpos (by simp [plainLength])
  | cons c rest =>
    have hplain : ∀ d ∈ (c :: rest).take n, isBreak d = false ∧ isFlowIndicator d = false := by
      intro d hd
      rw [← hn] at hd
      obtain ⟨hbreak, hindicator⟩ := of_mem_plain hd
      exact ⟨hbreak, hindicator rfl⟩
    have hc : isFlowIndicator c = false := by
      obtain ⟨m, rfl⟩ := Nat.exists_eq_succ_of_ne_zero (Nat.ne_of_gt hpos)
      exact (hplain c (by simp)).2
    have hstart : s.atLineStart = false := beq_eq_false_iff_ne.mpr (Nat.ne_of_gt hline)
    have hlength : n ≤ rest.length + 1 := by
      rw [← hn]
      exact plainLength_le_length true previous (c :: rest)
    obtain ⟨found, hfound⟩ := h.exists_lexeme herror
    by_cases hle : n ≤ found.length
    · -- The plain scalar ends inside of the token, which is either torn or a name.
      subst hn
      rcases inside_cases hfound hflow hstart hpos hle with
        ⟨kind, k, rfl, hk, hkind⟩ | ⟨hsame, tail, htail, hkey⟩
      · exact absurd hwhole (h.torn hfound hkind hpos hle hk)
      · exact .of_name h hfound hc (fun d hd => (hplain d hd).1) hsame htail hkey
    · -- The token is part of the plain scalar, and the rest of it lies ahead.
      have hlt : found.length + 1 ≤ plainLength true previous (c :: rest) := by omega
      obtain ⟨before, hcount⟩ := exists_plainLength_drop hlt
      rw [hn, List.drop_succ_cons] at hcount
      have htaken : (c :: rest.take found.length).length = found.length + 1 := by
        rw [List.length_cons, List.length_take_of_le (by omega)]
      have hparts : c :: rest = (c :: rest.take found.length) ++ rest.drop found.length := by
        rw [List.cons_append, List.take_append_drop]
      have htake : (c :: rest).take n = (c :: rest.take found.length) ++
          (rest.drop found.length).take (plainLength true before (rest.drop found.length)) := by
        rw [hcount, List.take_add, List.take_succ_cons, List.drop_succ_cons]
      have hflat : ∀ d ∈ c :: rest.take found.length, isBreak d = false := by
        intro d hd
        apply (hplain d _).1
        rw [htake]
        exact List.mem_append_left _ hd
      have hstep := h.step hfound
      rw [after_eq_past hfound hc hflat] at hstep
      rw [htake, width_append, ← Nat.add_assoc] at hwhole
      have hahead := rejoins hstep herror hflow (Nat.lt_of_lt_of_le hline (Nat.le_add_right _ _)) rfl hwhole
      rw [hcount, hparts, ← htaken]
      exact hahead.of_past
termination_by left.length
decreasing_by
  have hleft : left = c :: rest := ‹_›
  rw [hleft, List.length_drop, List.length_cons]
  omega

/-! ## On both sides of the colon -/

theorem Reaches.lineStart_le (h : Reaches (.initial text) text tokens s left) : s.lineStart ≤ s.pos := by
  obtain ⟨above, line, honline⟩ := h.exists_onLine
  rw [honline.lineStart, honline.pos, width_append]
  exact Nat.le_add_right _ _

/-- Open collections were opened before. -/
theorem Reaches.offset_lt (h : Reaches (.initial text) text tokens s left) :
    ∀ entry ∈ s.flow, entry.2 < s.pos := by
  induction h with
  | start => exact fun entry hentry => absurd hentry List.not_mem_nil
  | @step tokens here c rest found _ _ ih =>
    have hpos : 0 < width (c :: rest.take found.length) := width_pos (by simp)
    intro entry hentry
    rw [after_pos]
    cases found with
    | layout n =>
      rw [after_layout_flow] at hentry
      exact Nat.lt_add_right _ (ih entry hentry)
    | token kind n =>
      rw [after_token_flow] at hentry
      rcases mem_track_flow hentry with hold | hnew
      · exact Nat.lt_add_right _ (ih entry hold)
      · rw [hnew]
        exact Nat.lt_add_of_pos_right hpos

theorem Reaches.past_colon (h : Reaches (.initial text) text tokens s (':' :: left))
    (hkey : endsKey s.inFlow left = true) :
    ∃ tokens, Reaches (.initial text) text tokens (s.past [':']) left := by
  have hfound : lexeme s ':' left = .ok (.token .value 0) := by
    rw [lexeme_eq_read, shapeAt_colon hkey]
    rfl
  have hstep := h.step hfound
  rw [after_eq_past hfound (by decide) (by simp [Lexeme.length, isBreak])] at hstep
  exact ⟨_, hstep⟩

theorem of_isBlank (h : isBlank c = true) : isBreak c = false ∧ isFlowIndicator c = false := by
  simp only [isBlank, Bool.or_eq_true, beq_iff_eq] at h
  rcases h with rfl | rfl <;> decide

theorem Reaches.past_blanks {b : Char} {blanks : Text}
    (h : Reaches (.initial text) text tokens s (b :: (blanks ++ left)))
    (hblanks : ∀ d ∈ b :: blanks, isBlank d = true) (hleft : ∀ d ∈ left.head?, isBlank d = false) :
    ∃ tokens, Reaches (.initial text) text tokens (s.past (b :: blanks)) left := by
  obtain ⟨hb, hmore⟩ := List.forall_mem_cons.mp hblanks
  have hwhile : (blanks ++ left).takeWhile isBlank = blanks := by
    rw [List.takeWhile_append_of_pos hmore]
    cases left with
    | nil => simp
    | cons d left => simp [hleft d rfl]
  have hfound := lexeme_of_isBlank s (blanks ++ left) hb
  rw [hwhile] at hfound
  have hstep := h.step hfound
  rw [Lexeme.length, List.take_left, List.drop_left,
    after_eq_past hfound (of_isBlank hb).2 fun d hd => (of_isBlank (hblanks d hd)).1] at hstep
  exact ⟨_, hstep⟩

theorem shapeAt_colon_plain (h : endsKey s.inFlow rest = false) : shapeAt s ':' rest = .plain := by
  simp [shapeAt, isBlank, isBreak, isMarker_of_ne, Bracket.ofOpening?, Bracket.ofClosing?, Quote.ofChar?, h]

/-- A colon glued to something that is no layout, and all that is read along with it. -/
theorem Reaches.past_glued (h : Reaches (.initial text) text tokens s (':' :: c :: rest))
    (hflow : s.inFlow = true) (hc : isLayout c = false) :
    ∃ tokens, Reaches (.initial text) text tokens
      ((s.past [':']).past ((c :: rest).take (plainLength true ':' (c :: rest))))
      ((c :: rest).drop (plainLength true ':' (c :: rest))) := by
  cases hkey : endsKey s.inFlow (c :: rest) with
  | true =>
    -- What ends the key is a flow indicator, which would be no part of a plain scalar.
    have hindicator : isFlowIndicator c = true := by
      simpa [endsKey, isSeparated, hflow, show (isBlank c || isBreak c) = false from hc] using hkey
    rw [show plainLength true ':' (c :: rest) = 0 by simp [plainLength, stopsPlain, hindicator]]
    exact h.past_colon hkey
  | false =>
    have hfound : lexeme s ':' (c :: rest) = .ok (.token .scalar (plainLength true ':' (c :: rest))) := by
      rw [lexeme_eq_read, shapeAt_colon_plain hkey, Shape.read, hflow]
    have hflat : ∀ d ∈ ':' :: (c :: rest).take (plainLength true ':' (c :: rest)), isBreak d = false := by
      rw [List.forall_mem_cons]
      exact ⟨by decide, fun d hd => (of_mem_plain hd).1⟩
    have hstep := h.step hfound
    rw [Lexeme.length, after_eq_past hfound (by decide) hflat] at hstep
    rw [← State.past_append]
    exact ⟨_, hstep⟩

end

end Scanner

/-! ## The theorem -/

/-- A place in `text` where a quoted key in a flow collection, at the end of `front`, has a colon right
behind it, and `blanks` separate the colon from another token. -/
structure SpacedColon (text front blanks back : Text) : Prop where
  divides : text = front ++ ':' :: (blanks ++ back)
  key : ∃ q ∈ (yamlScanner text).tokens, q.kind = .scalar ∧ q.stop = width front ∧
    (∃ quote : Quote, charAt? text q.start = some quote.char) ∧ (yamlScanner text).opensAt q.start = true
  nonempty : blanks ≠ []
  blank : ∀ c ∈ blanks, isBlank c = true
  next : ∃ t ∈ (yamlScanner text).tokens, t.start = width (front ++ ':' :: blanks)

namespace SpacedColon

variable {front blanks back : Text}

/-- The place where the key is read. -/
theorem exists_key (h : SpacedColon text front blanks back) :
    ∃ before place lead quote key, front = lead ++ quote.char :: key ∧
      Scanner.Reaches (.initial text) text before place (quote.char :: (key ++ ':' :: (blanks ++ back))) ∧
      Scanner.quotedLength? quote (key ++ ':' :: (blanks ++ back)) = some key.length ∧
      place.inFlow = true := by
  obtain ⟨q, hq, hkind, hqstop, ⟨quote, hquote⟩, hopen⟩ := h.key
  obtain ⟨before, place, lead, c, rest, n, hplace, htext, hfound, hstart, hstop⟩ := exists_place hq
  obtain rfl : c = quote.char := by
    rw [hstart, htext, charAt?_width] at hquote
    exact Option.some.inj hquote
  rw [hkind, Scanner.lexeme_eq_read, Scanner.shapeAt_quote] at hfound
  obtain ⟨m, hm, hlexeme⟩ := Scanner.exists_of_quotedScalar hfound
  obtain rfl : n = m := (Scanner.Lexeme.token.inj hlexeme).2
  -- The end of the key divides the text once as a token and once by what `h` says.
  have hparts : (lead ++ quote.char :: rest.take n) ++ rest.drop n = front ++ ':' :: (blanks ++ back) := by
    rw [← h.divides, htext]
    simp
  obtain ⟨hfront, hdrop⟩ := append_inj_of_width_eq hparts (by rw [width_append, ← hstop, hqstop])
  have hrest : rest = rest.take n ++ ':' :: (blanks ++ back) := by
    rw [← hdrop, List.take_append_drop]
  have hlength : (rest.take n).length = n := List.length_take_of_le (Scanner.quotedLength?_le hm)
  refine ⟨before, place, lead, quote, rest.take n, hfront.symm, ?_, ?_, ?_⟩
  · rw [← hrest]
    exact hplace
  · rw [← hrest, hlength]
    exact hm
  · rw [← hplace.opensAt_eq, hplace.pos_eq htext, ← hstart, hopen]

/-- Whatever stands behind the colon, a scan comes to it in the same state. -/
theorem exists_here (h : SpacedColon text front blanks back) :
    ∃ here : Scanner.State, here.inFlow = true ∧ ∀ back', ∃ tokens,
      Scanner.Reaches (.initial (front ++ ':' :: back')) (front ++ ':' :: back') tokens here
        (':' :: back') := by
  obtain ⟨before, place, lead, quote, key, rfl, hplace, hkey, hflow⟩ := h.exists_key
  obtain rfl : text = lead ++ quote.char :: (key ++ ':' :: (blanks ++ back)) := by
    simpa using h.divides
  refine ⟨place.after (.token .scalar key.length) (quote.char :: key) [':'], ?_, ?_⟩
  · rw [Scanner.State.inFlow, Scanner.after_token_flow]
    exact hflow
  · intro back'
    have hspaces := leadingSpaces_congr quote.char_ne_space lead (key ++ ':' :: (blanks ++ back))
      (key ++ ':' :: back')
    have hthere : Scanner.Reaches _ _ before place ([] ++ quote.char :: (key ++ ':' :: back')) :=
      Scanner.Reaches.congr hplace (key ++ ':' :: back')
    have hfound : Scanner.lexeme place quote.char (key ++ ':' :: back') =
        .ok (.token .scalar key.length) := by
      rw [Scanner.lexeme_eq_read, Scanner.shapeAt_quote, Scanner.Shape.read, Scanner.quotedScalar,
        Scanner.quotedLength?_congr hkey (Nat.le_refl _)]
    have hafter : place.after (.token .scalar key.length) (quote.char :: key) (':' :: back') =
        place.after (.token .scalar key.length) (quote.char :: key) [':'] :=
      Scanner.State.after_congr (by decide) _ _ _ [] _ _
    have hstep := hthere.step hfound
    rw [Scanner.Lexeme.length, List.take_left, List.drop_left, hafter, Scanner.State.initial,
      ← hspaces] at hstep
    rw [List.append_assoc, List.cons_append]
    exact ⟨_, hstep⟩

theorem exists_next (h : SpacedColon text front blanks back) :
    ∃ c rest, back = c :: rest ∧ isLayout c = false := by
  obtain ⟨t, ht, hstart⟩ := h.next
  obtain ⟨lead, c, rest, htext, hc, hwidth⟩ := (onset_yamlScanner text).1 t ht
  have hparts : lead ++ c :: rest = (front ++ ':' :: blanks) ++ back := by
    rw [← htext, h.divides]
    simp
  obtain ⟨-, hback⟩ := append_inj_of_width_eq hparts (hwidth.symm.trans hstart)
  exact ⟨c, rest, hback.symm, hc⟩

/-- The scan of the text as it is comes through the colon and the blanks. -/
theorem exists_spaced (h : SpacedColon text front blanks back) {here : Scanner.State}
    {tokens : List RawToken}
    (hhere : Scanner.Reaches (.initial text) text tokens here (':' :: (blanks ++ back))) :
    (∃ tokens, Scanner.Reaches (.initial text) text tokens (here.past [':']) (blanks ++ back)) ∧
      ∃ tokens, Scanner.Reaches (.initial text) text tokens ((here.past [':']).past blanks) back := by
  obtain ⟨c, rest, rfl, hc⟩ := h.exists_next
  obtain ⟨b, more, rfl⟩ := List.exists_cons_of_ne_nil h.nonempty
  have hb : isBlank b = true := h.blank b List.mem_cons_self
  have hkey : Scanner.endsKey here.inFlow (b :: more ++ c :: rest) = true := by
    simp [Scanner.endsKey, Scanner.isSeparated, hb]
  obtain ⟨_, hcolon⟩ := hhere.past_colon hkey
  refine ⟨⟨_, hcolon⟩, hcolon.past_blanks h.blank ?_⟩
  intro d hd
  obtain rfl := Option.some.inj hd
  exact (Bool.or_eq_false_iff.mp hc).1

end SpacedColon

/-- **The blanks behind a key's colon can go** unless something is torn: if no comment and no quoted scalar
goes on over the end of the plain scalar that the colon would begin, there still is no error. -/
theorem yamlScanner_unspaced {text front blanks back : Text} (h : SpacedColon text front blanks back)
    (herror : (yamlScanner text).error = none)
    (hwhole : TearsNothing text
      (width (front ++ ':' :: blanks) + width (back.take (Scanner.plainLength true ':' back)))) :
    (yamlScanner (front ++ ':' :: back)).error = none := by
  obtain ⟨here, hflow, hreaches⟩ := h.exists_here
  obtain ⟨_, hhere⟩ := hreaches (blanks ++ back)
  obtain ⟨_, hglued⟩ := hreaches back
  rw [← h.divides] at hhere
  obtain ⟨⟨_, hcolon⟩, ⟨_, hspaced⟩⟩ := h.exists_spaced hhere
  have hline : (here.past [':']).lineStart < (here.past [':']).pos := Nat.lt_succ_of_le hhere.lineStart_le
  -- With the blanks: tokens, up to where the plain scalar would end.
  rw [← hspaced.pos_eq (by rw [h.divides]; simp)] at hwhole
  obtain ⟨_, more, after, hdrop, hmore, hmeet⟩ :=
    Scanner.rejoins hspaced herror hflow (Nat.lt_add_right _ hline) rfl hwhole
  -- Without them: the plain scalar, and the colon that may be left behind it.
  have hmeet' : ∃ tokens, Scanner.Reaches (.initial (front ++ ':' :: back)) (front ++ ':' :: back) tokens
      ((here.past [':']).past (back.take (Scanner.plainLength true ':' back) ++ more)) after := by
    obtain ⟨c, rest, rfl, hc⟩ := h.exists_next
    obtain ⟨_, hplain⟩ := hglued.past_glued hflow hc
    rw [hdrop] at hplain
    rcases hmore with rfl | ⟨rfl, hkey⟩
    · rw [List.append_nil]
      exact ⟨_, hplain⟩
    · have hends : Scanner.endsKey here.inFlow after = true := by rwa [hflow]
      rw [Scanner.State.past_append]
      exact hplain.past_colon hends
  obtain ⟨_, hmeet'⟩ := hmeet'
  have hrun := Scanner.run_past_gap hline hcolon.offset_lt blanks
    (back.take (Scanner.plainLength true ':' back) ++ more) after
  calc (yamlScanner (front ++ ':' :: back)).error
    _ = _ := hmeet'.run_eq.2
    _ = _ := by rw [hrun]; rfl
    _ = (yamlScanner text).error.map _ := congrArg _ hmeet.run_eq.2.symm
    _ = none := by rw [herror]; rfl

/-- The plain scalar ends within an anchor, and leaves the colon of it. -/
theorem yamlScanner_unspaced_anchor : (yamlScanner "\x7b\"a\": &x: 1\x7d".toList).error = none ∧
    (yamlScanner ("\x7b\"a\"".toList ++ ':' :: "&x: 1\x7d".toList)).error = none := by
  have hspaced : SpacedColon "\x7b\"a\": &x: 1\x7d".toList "\x7b\"a\"".toList [' '] "&x: 1\x7d".toList :=
    { divides := rfl
      key := ⟨⟨.scalar, 1, 4⟩, by decide +kernel, rfl, rfl, ⟨.double, rfl⟩, by decide +kernel⟩
      nonempty := List.cons_ne_nil _ _
      blank := by simp [isBlank]
      next := ⟨⟨.anchor, 6, 9⟩, by decide +kernel, rfl⟩ }
  have herror : (yamlScanner "\x7b\"a\": &x: 1\x7d".toList).error = none := by decide +kernel
  have hwhole : TearsNothing "\x7b\"a\": &x: 1\x7d".toList 8 := by decide +kernel
  exact ⟨herror, yamlScanner_unspaced hspaced herror hwhole⟩

/-- A flow indicator in a quoted value ends the plain scalar, and the second half of the value is read as
the first half of another one. -/
theorem yamlScanner_unspaced_torn :
    SpacedColon "\x7b\"a\": \"\x7d\"\x7d".toList "\x7b\"a\"".toList [' '] "\"\x7d\"\x7d".toList ∧
      (yamlScanner "\x7b\"a\": \"\x7d\"\x7d".toList).error = none ∧
      (yamlScanner ("\x7b\"a\"".toList ++ ':' :: "\"\x7d\"\x7d".toList)).error =
        some ⟨7, .unterminated .double⟩ := by
  refine ⟨?_, by decide +kernel, by decide +kernel⟩
  exact
    { divides := rfl
      key := ⟨⟨.scalar, 1, 4⟩, by decide +kernel, rfl, rfl, ⟨.double, rfl⟩, by decide +kernel⟩
      nonempty := List.cons_ne_nil _ _
      blank := by simp [isBlank]
      next := ⟨⟨.scalar, 6, 9⟩, by decide +kernel, rfl⟩ }

end YamlStyle
