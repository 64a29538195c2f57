import YamlStyle.Proofs.Scanner.Partition
import YamlStyle.Proofs.Scanner.Quoted
import YamlStyle.Proofs.Scanner.Reaches

/-!
# Brackets are matched as on a stack

Whoever has the tokens of a scan can check the flow brackets by a stack of their own: push every opening
token, and let every closing token pop the one on top, which has to be of its kind. `settle` is one token
of that check. It knows nothing of the scanner, whose own stack holds brackets and offsets, is read by the
guards of half a dozen shapes and lets go of an entry only where a closing bracket was found good.

`yamlScanner_balanced` says that the check never fails on what the scanner reports, and that the faults
about brackets are the ones the check would find. What the check leaves unmatched at the end of the text
is reported as an unclosed collection, the innermost one, at its opening token. A closing bracket is
unexpected if nothing is left unmatched in front of it, and the wrong one if the innermost opening token
is of the other kind.

The two stacks mirror each other at every place that a scan comes through (`exists_mirrors`). All else is
read off the place where it halts.
-/

set_option autoImplicit false

namespace YamlStyle

/-- Take the opening token of a kind off a stack. -/
def popOpening (kind : TokenKind) : List RawToken → Option (List RawToken)
  | [] => none
  | top :: below => if top.kind = kind then some below else none

/-- One token on a stack of opening tokens, the innermost first. -/
def settle (stack : List RawToken) (t : RawToken) : Option (List RawToken) :=
  match t.kind with
  | .flowSequenceStart | .flowMappingStart => some (t :: stack)
  | .flowSequenceEnd => popOpening .flowSequenceStart stack
  | .flowMappingEnd => popOpening .flowMappingStart stack
  | _ => some stack

namespace Bracket

theorem openKind_inj {a b : Bracket} (h : a.openKind = b.openKind) : a = b := by
  cases a <;> cases b <;> simp_all [openKind]

theorem closeKind_inj {a b : Bracket} (h : a.closeKind = b.closeKind) : a = b := by
  cases a <;> cases b <;> simp_all [closeKind]

theorem openKind_ne_closeKind (a b : Bracket) : a.openKind ≠ b.closeKind := by
  cases a <;> cases b <;> decide

theorem closing_inj {a b : Bracket} : a.closing = b.closing ↔ a = b := by
  cases a <;> cases b <;> decide

theorem eq_closing_of_ofClosing? {c : Char} {b : Bracket} (h : ofClosing? c = some b) :
    c = b.closing := by
  unfold ofClosing? at h
  split at h
  · cases h
    assumption
  · split at h
    · cases h
      assumption
    · exact absurd h (by simp)

end Bracket

theorem Quote.eq_char_of_ofChar? {c : Char} {quote : Quote} (h : ofChar? c = some quote) :
    c = quote.char := by
  unfold ofChar? at h
  split at h
  · cases h
    assumption
  · split at h
    · cases h
      assumption
    · exact absurd h (by simp)

theorem Quote.char_ne_closing (quote : Quote) (b : Bracket) : quote.char ≠ b.closing := by
  cases quote <;> cases b <;> decide

namespace Scanner

/-- A stack of opening tokens and the stack of a scan hold the same brackets, opened at the same
offsets. -/
def Mirrors (stack : List RawToken) (flow : List (Bracket × Nat)) : Prop :=
  stack.map (fun t => (t.kind, t.start)) = flow.map fun entry => (entry.1.openKind, entry.2)

namespace Mirrors

variable {stack : List RawToken} {flow : List (Bracket × Nat)}

theorem eq_nil_iff (h : Mirrors stack flow) : stack = [] ↔ flow = [] := by
  rw [← List.map_eq_nil_iff, h, List.map_eq_nil_iff]

theorem exists_top {bracket : Bracket} {offset : Nat} {below : List (Bracket × Nat)}
    (h : Mirrors stack ((bracket, offset) :: below)) :
    ∃ top rest, stack = top :: rest ∧ top.kind = bracket.openKind ∧ top.start = offset ∧
      Mirrors rest below := by
  cases stack with
  | nil => exact absurd h (by simp [Mirrors])
  | cons top rest =>
    obtain ⟨htop, hrest⟩ := List.cons.inj h
    obtain ⟨hkind, hstart⟩ := Prod.mk.inj htop
    exact ⟨top, rest, rfl, hkind, hstart, hrest⟩

theorem exists_top_iff (h : Mirrors stack flow) (bracket : Bracket) :
    (∃ top rest, stack = top :: rest ∧ top.kind = bracket.openKind) ↔
      ∃ offset below, flow = (bracket, offset) :: below := by
  refine ⟨?_, ?_⟩
  · rintro ⟨top, rest, rfl, hkind⟩
    cases flow with
    | nil => exact absurd h (by simp [Mirrors])
    | cons entry below =>
      obtain ⟨htop, -⟩ := List.cons.inj h
      have hopen := hkind.symm.trans (Prod.mk.inj htop).1
      exact ⟨entry.2, below, by rw [Bracket.openKind_inj hopen]⟩
  · rintro ⟨offset, below, rfl⟩
    obtain ⟨top, rest, hstack, hkind, -⟩ := h.exists_top
    exact ⟨top, rest, hstack, hkind⟩

end Mirrors

/-! ## One step -/

theorem closeFlow_ok {s : State} {bracket : Bracket} {found : Lexeme}
    (h : closeFlow s bracket = .ok found) : ∃ offset below, s.flow = (bracket, offset) :: below := by
  unfold closeFlow at h
  split at h
  · exact absurd h (by simp)
  · rename_i opened offset below hflow
    split at h
    · rename_i hopened
      exact ⟨offset, below, by rw [hflow, hopened]⟩
    · exact absurd h (by simp)

/-- A closing token is read only where it closes the innermost collection. -/
theorem exists_open_of_closing {s : State} {c : Char} {rest : Text} {n : Nat} (bracket : Bracket)
    (h : lexeme s c rest = .ok (.token bracket.closeKind n)) :
    ∃ offset below, s.flow = (bracket, offset) :: below := by
  revert h
  fun_cases lexeme s c rest
  case case10 =>
    intro h
    exact absurd (Lexeme.token.inj (Except.ok.inj h)).1 (Bracket.openKind_ne_closeKind _ bracket)
  case case11 =>
    intro h
    rw [Bracket.closeKind_inj (Lexeme.token.inj (eq_of_closeFlow h)).1]
    exact closeFlow_ok h
  case case16 =>
    intro h
    obtain ⟨m, -, hfound⟩ := exists_of_quotedScalar h
    exact absurd (Lexeme.token.inj hfound).1 (by cases bracket <;> decide)
  all_goals exact fun h => absurd h (by cases bracket <;> simp [Bracket.closeKind])

theorem Mirrors.exists_popOpening {stack : List RawToken} {flow : List (Bracket × Nat)}
    {bracket : Bracket} (h : Mirrors stack flow)
    (hflow : ∃ offset below, flow = (bracket, offset) :: below) :
    ∃ next, popOpening bracket.openKind stack = some next ∧ Mirrors next flow.tail := by
  obtain ⟨offset, below, rfl⟩ := hflow
  obtain ⟨top, next, rfl, hkind, -, hnext⟩ := h.exists_top
  exact ⟨next, if_pos hkind, hnext⟩

/-- One token on both stacks. -/
theorem exists_settle {s : State} {c : Char} {rest : Text} {stack : List RawToken} {kind : TokenKind}
    {n : Nat} (h : Mirrors stack s.flow) (hfound : lexeme s c rest = .ok (.token kind n)) (stop : Nat) :
    ∃ next, settle stack ⟨kind, s.pos, stop⟩ = some next ∧ Mirrors next (s.track kind).flow := by
  cases kind with
  | flowSequenceStart | flowMappingStart => exact ⟨_, rfl, congrArg _ h⟩
  | flowSequenceEnd => exact h.exists_popOpening (exists_open_of_closing .square hfound)
  | flowMappingEnd => exact h.exists_popOpening (exists_open_of_closing .curly hfound)
  | _ => exact ⟨_, rfl, h⟩

/-- **The stack of the check mirrors the stack of the scan** wherever a scan comes through. -/
theorem exists_mirrors {text : Text} {tokens : List RawToken} {here : State} {left : Text}
    (h : Reaches (.initial text) text tokens here left) :
    ∃ stack, tokens.foldlM settle [] = some stack ∧ Mirrors stack here.flow := by
  induction h with
  | start => exact ⟨[], rfl, rfl⟩
  | @step tokens here c rest found _ hfound ih =>
    obtain ⟨stack, hstack, hmirrors⟩ := ih
    cases found with
    | layout n =>
      refine ⟨stack, ?_, ?_⟩
      · rwa [Lexeme.tokens, List.append_nil]
      · rwa [after_layout_flow]
    | token kind n =>
      obtain ⟨next, hnext, hmirrors'⟩ :=
        exists_settle hmirrors hfound (here.pos + width (c :: rest.take n))
      refine ⟨next, ?_, ?_⟩
      · rw [List.foldlM_append, hstack]
        exact (bind_pure _).trans hnext
      · rwa [after_token_flow]

/-! ## What the check leaves -/

theorem sublist_of_popOpening {kind : TokenKind} {stack next : List RawToken}
    (h : popOpening kind stack = some next) : next.Sublist stack := by
  cases stack with
  | nil => exact absurd h (by simp [popOpening])
  | cons top below =>
    obtain ⟨-, hbelow⟩ := Option.ite_none_right_eq_some.mp h
    obtain rfl := Option.some.inj hbelow
    exact List.sublist_cons_self top below

theorem sublist_of_settle {stack next : List RawToken} {t : RawToken} (h : settle stack t = some next) :
    next.Sublist (t :: stack) := by
  unfold settle at h
  split at h
  · obtain rfl := Option.some.inj h
    exact List.Sublist.refl _
  · obtain rfl := Option.some.inj h
    exact List.Sublist.refl _
  · exact (sublist_of_popOpening h).cons t
  · exact (sublist_of_popOpening h).cons t
  · obtain rfl := Option.some.inj h
    exact List.sublist_cons_self t stack

/-- What the check leaves are some of the tokens it was given, the last of them first. -/
theorem sublist_of_settled {tokens stack rest : List RawToken}
    (h : tokens.foldlM settle stack = some rest) : rest.Sublist (tokens.reverse ++ stack) := by
  induction tokens generalizing stack with
  | nil =>
    obtain rfl := Option.some.inj h
    exact List.Sublist.refl _
  | cons t tokens ih =>
    obtain ⟨next, hnext, hrest⟩ := Option.bind_eq_some_iff.mp ((List.foldlM_cons ..).symm.trans h)
    rw [List.reverse_cons, List.append_assoc]
    exact (ih hrest).trans (List.Sublist.append_left (sublist_of_settle hnext) _)

/-! ## Where a scan halts -/

section

variable {s : State} {c : Char} {rest : Text} {fault : ScanFault}

theorem fault_of_quotedScalar {quote : Quote} (h : quotedScalar quote rest = .error fault) :
    fault = .unterminated quote := by
  unfold quotedScalar at h
  split at h
  · exact absurd h (by simp)
  · exact (Except.error.inj h).symm

/-- A step that fails stands at a closing bracket, or at a quote. -/
theorem fault_of_lexeme (h : lexeme s c rest = .error fault) :
    (∃ bracket, c = Bracket.closing bracket ∧ closeFlow s bracket = .error fault) ∨
      ∃ quote, c = Quote.char quote ∧ fault = .unterminated quote := by
  revert h
  fun_cases lexeme s c rest
  case case11 =>
    exact fun h => Or.inl ⟨_, Bracket.eq_closing_of_ofClosing? ‹_›, h⟩
  case case16 =>
    exact fun h => Or.inr ⟨_, Quote.eq_char_of_ofChar? ‹_›, fault_of_quotedScalar h⟩
  all_goals exact fun h => absurd h (by simp)

theorem fault_of_closeFlow {bracket : Bracket} (h : closeFlow s bracket = .error fault) :
    (s.flow = [] ∧ fault = .unexpected bracket) ∨
      ∃ opened offset below, s.flow = (opened, offset) :: below ∧ opened ≠ bracket ∧
        fault = .mismatched opened bracket := by
  unfold closeFlow at h
  split at h
  · rename_i hflow
    cases h
    exact Or.inl ⟨hflow, rfl⟩
  · rename_i opened offset below hflow
    split at h
    · exact absurd h (by simp)
    · rename_i hne
      cases h
      exact Or.inr ⟨opened, offset, below, hflow, hne, rfl⟩

theorem unexpected_iff (h : lexeme s c rest = .error fault) (bracket : Bracket) :
    fault = .unexpected bracket ↔ c = bracket.closing ∧ s.flow = [] := by
  rcases fault_of_lexeme h with ⟨closed, rfl, hclose⟩ | ⟨quote, rfl, rfl⟩
  · rcases fault_of_closeFlow hclose with ⟨hflow, rfl⟩ | ⟨opened, offset, below, hflow, -, rfl⟩
    · simp [hflow, Bracket.closing_inj]
    · simp [hflow]
  · simp [Quote.char_ne_closing]

theorem mismatched_iff (h : lexeme s c rest = .error fault) (opened closed : Bracket) :
    fault = .mismatched opened closed ↔
      c = closed.closing ∧ opened ≠ closed ∧ ∃ offset below, s.flow = (opened, offset) :: below := by
  rcases fault_of_lexeme h with ⟨bracket, rfl, hclose⟩ | ⟨quote, rfl, rfl⟩
  · rcases fault_of_closeFlow hclose with ⟨hflow, rfl⟩ | ⟨inner, offset, below, hflow, hne, rfl⟩
    · simp [hflow]
    · rw [Bracket.closing_inj]
      refine ⟨?_, ?_⟩
      · intro hfault
        obtain ⟨rfl, rfl⟩ := ScanFault.mismatched.inj hfault
        exact ⟨rfl, hne, offset, below, hflow⟩
      · rintro ⟨rfl, -, offset', below', hflow'⟩
        obtain ⟨hentry, -⟩ := List.cons.inj (hflow.symm.trans hflow')
        rw [(Prod.mk.inj hentry).1]
  · simp [Quote.char_ne_closing]

end

end Scanner

/-! ## The check of a whole scan -/

/-- The character that begins at a byte offset. -/
def charAt? (text : Text) (offset : Nat) : Option Char := (dropBytes? text offset).bind List.head?

theorem charAt?_width (front back : Text) : charAt? (front ++ back) (width front) = back.head? := by
  rw [charAt?, dropBytes?_width]
  rfl

/-- A fault is worded with `words` in front. -/
def ScanFault.Says (fault : ScanFault) (words : String) : Prop :=
  words.toList <+: fault.message.toList

/-- The faults about brackets are told apart by their words. -/
theorem ScanFault.says_iff {fault : ScanFault} (h : ∀ message, fault ≠ .reported message) :
    (fault.Says "unclosed flow collection" ↔ ∃ b, fault = .unclosed b) ∧
      (fault.Says "unexpected" ↔ ∃ b, fault = .unexpected b) ∧
      (fault.Says "expected a closing" ↔ ∃ opened closed, fault = .mismatched opened closed) := by
  unfold ScanFault.Says
  cases fault with
  | reported message => exact absurd rfl (h message)
  | unterminated quote => cases quote <;> simp <;> decide
  | unclosed b => cases b <;> simp <;> decide
  | unexpected b => cases b <;> simp <;> decide
  | mismatched o b => cases o <;> cases b <;> simp <;> decide

/-- What the check says about a scan that stopped at byte `stop`, when it leaves `unmatched`. -/
structure Balanced (text : Text) (scan : Scan) (stop : Nat) (unmatched : List RawToken) : Prop where
  /-- No token pops an empty stack or a bracket of the other kind. -/
  replayed : scan.tokens.foldlM settle [] = some unmatched
  sublist : unmatched.Sublist scan.tokens.reverse
  clean : scan.error = none → unmatched = []
  unclosed : (∃ offset b, scan.error = some ⟨offset, .unclosed b⟩) ↔ stop = width text ∧ unmatched ≠ []
  innermost : ∀ offset b, scan.error = some ⟨offset, .unclosed b⟩ →
    ∃ top below, unmatched = top :: below ∧ top.kind = b.openKind ∧ top.start = offset
  unexpected : ∀ offset b, scan.error = some ⟨offset, .unexpected b⟩ ↔
    stop = offset ∧ charAt? text offset = some b.closing ∧ unmatched = []
  mismatched : ∀ offset opened closed, scan.error = some ⟨offset, .mismatched opened closed⟩ ↔
    stop = offset ∧ charAt? text offset = some closed.closing ∧ opened ≠ closed ∧
      ∃ top below, unmatched = top :: below ∧ top.kind = opened.openKind
  worded : ∀ e, scan.error = some e →
    (e.fault.Says "unclosed flow collection" ↔ ∃ b, e.fault = .unclosed b) ∧
      (e.fault.Says "unexpected" ↔ ∃ b, e.fault = .unexpected b) ∧
      (e.fault.Says "expected a closing" ↔ ∃ opened closed, e.fault = .mismatched opened closed)

section

variable {text : Text} {scan : Scan} {last : Scanner.State} {unmatched : List RawToken}

theorem sublist_reverse (h : scan.tokens.foldlM settle [] = some unmatched) :
    unmatched.Sublist scan.tokens.reverse := by
  have hsublist := Scanner.sublist_of_settled h
  rwa [List.append_nil] at hsublist

/-- A scan that read everything. -/
theorem Balanced.of_finished (hreplayed : scan.tokens.foldlM settle [] = some unmatched)
    (hmirrors : Scanner.Mirrors unmatched last.flow) (herror : scan.error = Scanner.endError last) :
    Balanced text scan (width text) unmatched := by
  -- No character begins at the end of a text, so no closing bracket is at fault there.
  have hend : ∀ offset c, width text = offset → charAt? text offset ≠ some c := by
    rintro _ c rfl hc
    have hnone := charAt?_width text []
    rw [List.append_nil, hc] at hnone
    exact absurd hnone (by simp)
  rw [Scanner.endError] at herror
  cases hflow : last.flow with
  | nil =>
    obtain rfl := hmirrors.eq_nil_iff.mpr hflow
    rw [hflow] at herror
    refine ⟨hreplayed, sublist_reverse hreplayed, ?_, ?_, ?_, ?_, ?_, ?_⟩
    · exact fun _ => rfl
    · simp [herror]
    · simp [herror]
    · intro offset b
      exact iff_of_false (by simp [herror]) fun h => hend offset _ h.1 h.2.1
    · simp [herror]
    · simp [herror]
  | cons entry below =>
    rw [hflow] at hmirrors herror
    obtain ⟨top, rest, rfl, hkind, hstart, -⟩ := hmirrors.exists_top
    replace herror : scan.error = some ⟨entry.2, .unclosed entry.1⟩ := herror
    refine ⟨hreplayed, sublist_reverse hreplayed, ?_, ?_, ?_, ?_, ?_, ?_⟩
    · simp [herror]
    · simp [herror]
    · intro offset b he
      obtain ⟨rfl, rfl⟩ := by simpa [herror] using he
      exact ⟨top, rest, rfl, hkind, hstart⟩
    · simp [herror]
    · intro offset opened closed
      exact iff_of_false (by simp [herror]) fun h => hend offset _ h.1 h.2.1
    · intro e he
      obtain rfl := Option.some.inj (herror.symm.trans he)
      exact ScanFault.says_iff (by simp)

/-- A scan that came to a character at which nothing can be read. -/
theorem Balanced.of_stuck {taken rest : Text} {c : Char} {fault : ScanFault}
    (hreplayed : scan.tokens.foldlM settle [] = some unmatched)
    (hmirrors : Scanner.Mirrors unmatched last.flow) (hfault : Scanner.lexeme last c rest = .error fault)
    (herror : scan.error = some ⟨width taken, fault⟩) :
    Balanced (taken ++ c :: rest) scan (width taken) unmatched := by
  have hchar : charAt? (taken ++ c :: rest) (width taken) = some c := charAt?_width taken (c :: rest)
  have hwidth : width taken ≠ width (taken ++ c :: rest) := by
    have hpos : 0 < width (c :: rest) := width_pos (by simp)
    rw [width_append]
    omega
  have hfatal := Scanner.isFatal_of_lexeme hfault
  have hunclosed : ∀ b, fault ≠ .unclosed b := by
    rintro b rfl
    exact absurd hfatal (by simp [ScanFault.isFatal])
  have hforeign : ∀ message, fault ≠ .reported message := by
    rintro message rfl
    exact absurd hfatal (by simp [ScanFault.isFatal])
  refine ⟨hreplayed, sublist_reverse hreplayed, ?_, ?_, ?_, ?_, ?_, ?_⟩
  · simp [herror]
  · refine iff_of_false ?_ (fun h => hwidth h.1)
    simp [herror, hunclosed]
  · simp [herror, hunclosed]
  · intro offset b
    rw [herror, hmirrors.eq_nil_iff, Option.some.injEq, ScanError.mk.injEq]
    refine and_congr_right ?_
    rintro rfl
    rw [hchar, Option.some.injEq]
    exact Scanner.unexpected_iff hfault b
  · intro offset opened closed
    rw [herror, hmirrors.exists_top_iff, Option.some.injEq, ScanError.mk.injEq]
    refine and_congr_right ?_
    rintro rfl
    rw [hchar, Option.some.injEq]
    exact Scanner.mismatched_iff hfault opened closed
  · intro e he
    obtain rfl := Option.some.inj (herror.symm.trans he)
    exact ScanFault.says_iff hforeign

end

/-- **Brackets are matched as on a stack.** -/
theorem yamlScanner_balanced (text : Text) :
    ∃ unmatched, Balanced text (yamlScanner text) (Scanner.stopOffset (.initial text) text) unmatched := by
  obtain ⟨last, left, hreaches, hhalts, hstop⟩ := Scanner.exists_halt (.initial text) text
  obtain ⟨taken, htext, hpos⟩ := hreaches.exists_taken
  obtain ⟨unmatched, hreplayed, hmirrors⟩ := Scanner.exists_mirrors hreaches
  rw [hstop]
  replace hpos : last.pos = width taken := hpos.trans (Nat.zero_add _)
  refine ⟨unmatched, ?_⟩
  cases hhalts with
  | finished herror =>
    rw [List.append_nil] at htext
    rw [hpos, ← htext]
    exact .of_finished hreplayed hmirrors herror
  | stuck hfault herror =>
    rw [hpos] at herror ⊢
    have hbalanced := Balanced.of_stuck hreplayed hmirrors hfault herror
    rwa [← htext] at hbalanced

end YamlStyle
