import YamlStyle.Proofs.Scanner.Tiling

/-!
# The places a scan comes through

`run` hands the tokens of what is left to the token it has just read, and so it ends where it began.
What is asked about a scan is asked from the other side: in which state is it here, after these tokens,
with this text left? `Reaches` is that picture of a scan, one step after the other from the first
character on. Every scan reaches a last place, with all of its tokens behind it (`exists_halt`), and every
token was read by a step at some place before (`Reaches.exists_step`), so that an invariant of the places
is an invariant of the scan and a fact about steps is a fact about tokens.
-/

set_option autoImplicit false

namespace YamlStyle

namespace Scanner

/-- The token of a lexeme that lies between two offsets, if it is one. -/
def Lexeme.tokens (found : Lexeme) (start stop : Nat) : List RawToken :=
  match found with
  | .layout _ => []
  | .token kind _ => [⟨kind, start, stop⟩]

/-- A scan of `text` that begins in the state `s` comes through a place where `tokens` have been read and
some text is left. -/
inductive Reaches (s : State) (text : Text) : List RawToken → State → Text → Prop
  | start : Reaches s text [] s text
  | step {tokens : List RawToken} {here : State} {c : Char} {rest : Text} {found : Lexeme} :
      Reaches s text tokens here (c :: rest) → lexeme here c rest = .ok found →
      Reaches s text
        (tokens ++ found.tokens here.pos (here.pos + width (c :: rest.take found.length)))
        (here.after found (c :: rest.take found.length) (rest.drop found.length))
        (rest.drop found.length)

variable {s here : State} {text left : Text} {tokens : List RawToken}

theorem consToken_tokens (s : State) (found : Lexeme) (next : State) (scan : Scan) :
    (consToken s found next scan).tokens = found.tokens s.pos next.pos ++ scan.tokens := by
  cases found <;> rfl

namespace Reaches

/-- What a scan has taken off the text, it has moved on by. -/
theorem exists_taken (h : Reaches s text tokens here left) :
    ∃ taken, text = taken ++ left ∧ here.pos = s.pos + width taken := by
  induction h with
  | start => exact ⟨[], rfl, rfl⟩
  | @step tokens here c rest found _ _ ih =>
    obtain ⟨taken, htext, hpos⟩ := ih
    refine ⟨taken ++ (c :: rest.take found.length), ?_, ?_⟩
    · rw [List.append_assoc, List.cons_append, List.take_append_drop]
      exact htext
    · rw [after_pos, hpos, width_append, Nat.add_assoc]

theorem exists_front (h : Reaches (.initial text) text tokens here left) :
    ∃ front, text = front ++ left ∧ here.pos = width front := by
  obtain ⟨front, htext, hpos⟩ := h.exists_taken
  exact ⟨front, htext, hpos.trans (Nat.zero_add _)⟩

theorem pos_eq {front : Text} (h : Reaches (.initial text) text tokens here left)
    (htext : text = front ++ left) : here.pos = width front := by
  obtain ⟨taken, hwhole, hpos⟩ := h.exists_front
  rw [hpos, List.append_cancel_right (htext.symm.trans hwhole)]

/-- A step in front of a scan. -/
theorem head {c : Char} {rest : Text} {found : Lexeme} (hfound : lexeme s c rest = .ok found)
    (h : Reaches (s.after found (c :: rest.take found.length) (rest.drop found.length))
      (rest.drop found.length) tokens here left) :
    Reaches s (c :: rest)
      (found.tokens s.pos (s.pos + width (c :: rest.take found.length)) ++ tokens) here left := by
  induction h with
  | start =>
    rw [List.append_nil]
    exact step start hfound
  | step _ hstep ih =>
    rw [← List.append_assoc]
    exact step ih hstep

/-- Every token was read by a step. -/
theorem exists_step (h : Reaches s text tokens here left) {t : RawToken} (ht : t ∈ tokens) :
    ∃ before place c rest n, Reaches s text before place (c :: rest) ∧
      lexeme place c rest = .ok (.token t.kind n) ∧ t.start = place.pos ∧
      t.stop = place.pos + width (c :: rest.take n) := by
  induction h with
  | start => exact absurd ht List.not_mem_nil
  | @step tokens here c rest found hreaches hfound ih =>
    rcases List.mem_append.mp ht with ht | ht
    · exact ih ht
    · cases found with
      | layout n => exact absurd ht List.not_mem_nil
      | token kind n =>
        obtain rfl := List.mem_singleton.mp ht
        exact ⟨tokens, here, c, rest, n, hreaches, hfound, rfl, rfl⟩

/-- What a scan still reads at a place is what a run from there reads. -/
theorem run_eq (h : Reaches s text tokens here left) :
    (run s text).tokens = tokens ++ (run here left).tokens ∧
      (run s text).error = (run here left).error := by
  induction h with
  | start => exact ⟨rfl, rfl⟩
  | @step tokens here c rest found _ hfound ih =>
    obtain ⟨htokens, herror⟩ := ih
    rw [run, hfound] at htokens herror
    refine ⟨?_, herror.trans (consToken_error ..)⟩
    rw [htokens, consToken_tokens, after_pos, List.append_assoc]

end Reaches

/-- Where and how a scan ends: with nothing left, and then only an open collection is a fault, or in front
of a character at which nothing can be read. -/
inductive Halts (scan : Scan) (last : State) : Text → Prop
  | finished : scan.error = endError last → Halts scan last []
  | stuck {c : Char} {rest : Text} {fault : ScanFault} : lexeme last c rest = .error fault →
      scan.error = some ⟨last.pos, fault⟩ → Halts scan last (c :: rest)

/-- **Every scan reaches a place where it halts**, with all of its tokens. -/
theorem exists_halt (s : State) (text : Text) :
    ∃ last left, Reaches s text (run s text).tokens last left ∧ Halts (run s text) last left ∧
      stopOffset s text = last.pos := by
  fun_induction run s text with
  | case1 s => exact ⟨s, [], .start, .finished rfl, by rw [stopOffset]⟩
  | case2 s c rest fault hfault =>
    exact ⟨s, c :: rest, .start, .stuck hfault rfl, by rw [stopOffset, hfault]⟩
  | case3 s c rest found hfound next ih =>
    obtain ⟨last, left, hreaches, hhalts, hstop⟩ := ih
    refine ⟨last, left, ?_, ?_, ?_⟩
    · rw [consToken_tokens, show next.pos = s.pos + width _ from after_pos ..]
      exact hreaches.head hfound
    · cases hhalts with
      | finished herror => exact .finished (by rwa [consToken_error])
      | stuck hfault herror => exact .stuck hfault (by rwa [consToken_error])
    · rw [stopOffset, hfound]
      exact hstop

end Scanner

end YamlStyle
