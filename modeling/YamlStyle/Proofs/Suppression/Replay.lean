import YamlStyle.Proofs.Suppression.Ledger
import YamlStyle.Proofs.Token.Window

/-!
# Suppression is replaying the directives

A reader of a document thinks of a rule as a **switch**: `disable` turns it off, `enable` turns it on
again, each for the rules it names or for all of them, and a finding is silent if the switch is off on
its line. The ledger keeps no switches. It keeps a blanket disable apart from disables by name, each
with the line it started on, dissolves the blanket when only some rules are enabled, and writes down
intervals as things are closed. `isSuppressed_iff_replay` says that the two are the same, for every
list of tokens in order of their lines and however directives overlap, repeat, share a line or close
nothing.

The invariant of the walk is `Ledger.Reflects`. For the tokens seen so far it says on *every* line,
also those further up and those further down, that closed and open stretches together are the lines
on which the replay leaves the rule off. One bound on the lines seen makes it inductive: what is open
started at or above the bound, what is closed ended above it, and the next directive is not above it.
-/

set_option autoImplicit false

namespace YamlStyle

/-- Whether a directive is about a rule: it names the rule, or it names none at all. -/
def Directive.isAbout (d : Directive) (rule : String) : Bool :=
  d.rules.isEmpty || d.rules.contains rule

/-- The directive a token spells, if it is a comment that spells one. -/
def Token.directive? (t : Token) : Option Directive :=
  if t.kind = .comment then Directive.parse? t.value else none

namespace Suppressions

/-! ## The reading by switches -/

/-- The switch of a rule after a directive: off after a `disable` and on after an `enable` that is
about the rule, and as it was otherwise. -/
def flick (rule : String) (off : Bool) (d : Directive) : Bool :=
  if d.isAbout rule then
    match d.verb with
    | .disable => true
    | .enable => false
    | .disableLine | .disableFile => off
  else off

/-- Whether a rule is off on a line: replay, in the order of the tokens, the directives that stand on
this line or above it. -/
def replay (rule : String) (line : Nat) (tokens : List Token) : Bool :=
  ((tokens.filter fun t => decide (t.start.line ≤ line)).filterMap Token.directive?).foldl
    (flick rule) false

/-- Whether the token of a window is a line directive that is about a rule and has `line` as its
target. -/
def TargetsLine (rule : String) (line : Nat) (w : Window) : Prop :=
  ∃ d, w.current.directive? = some d ∧ d.verb = .disableLine ∧ d.isAbout rule = true ∧
    targetLine w = line

/-- Whether a token is a file directive in the one place where it takes effect. -/
def SilencesFile (t : Token) : Prop :=
  ∃ d, t.directive? = some d ∧ d.verb = .disableFile ∧ t.start.line = 1

instance (rule : String) (line : Nat) : DecidablePred (TargetsLine rule line) := fun w =>
  decidable_of_iff
    ((w.current.directive?.any fun d =>
      d.verb == .disableLine && d.isAbout rule && targetLine w == line) = true)
    (by simp [TargetsLine, Option.any_eq_true, and_assoc])

instance : DecidablePred SilencesFile := fun t =>
  decidable_of_iff
    ((t.directive?.any fun d => d.verb == .disableFile && t.start.line == 1) = true)
    (by simp [SilencesFile, Option.any_eq_true])

theorem replay_append_singleton (rule : String) (line : Nat) (tokens : List Token) (t : Token) :
    replay rule line (tokens ++ [t]) =
      match t.directive? with
      | some d => if t.start.line ≤ line then flick rule (replay rule line tokens) d
        else replay rule line tokens
      | none => replay rule line tokens := by
  unfold replay
  rw [List.filter_append, List.filterMap_append, List.foldl_append]
  by_cases hline : t.start.line ≤ line
  · cases hd : t.directive? with
    | none => simp [hline, hd]
    | some d => simp [hline, hd]
  · cases t.directive? with
    | none => simp [hline]
    | some d => simp [hline]

/-! ## The invariant -/

/-- A ledger **reflects** the tokens seen so far, as far as one rule goes, and none of them stood
below `bound`. -/
structure Ledger.Reflects (ledger : Ledger) (rule : String) (seen : List Window) (bound : Nat) :
    Prop where
  nodup : ledger.single.keys.Nodup
  /-- What is open started at the bound or above it. -/
  started : ∀ first, ledger.blanket = some first ∨ ledger.single.get? rule = some first →
    first ≤ bound
  /-- What is closed ended above the bound. -/
  ended : ∀ line, bound ≤ line → ¬ ledger.Closed rule line
  switched : ∀ line, ledger.Closed rule line ∨ ledger.Open rule line ↔
    replay rule line (seen.map (·.current)) = true
  marked : ∀ line, (∃ i ∈ ledger.marks, Covers rule line i) ↔ ∃ w ∈ seen, TargetsLine rule line w
  file : ledger.found.fileDisabled = true ↔ ∃ w ∈ seen, SilencesFile w.current

variable {ledger after : Ledger} {rule : String} {known : List String} {seen : List Window}
  {bound : Nat} {w : Window} {d : Directive}

theorem Ledger.reflects_empty (rule : String) : Ledger.empty.Reflects rule [] 0 where
  nodup := List.nodup_nil
  started := by
    rintro first (h | h)
    · exact absurd h (by simp [Ledger.empty])
    · exact absurd h (by simp [Ledger.empty, Table.get?])
  ended := by
    rintro line - ⟨i, hi, -⟩
    exact absurd hi (by simp [Ledger.empty, nothing])
  switched line := by
    simp [Ledger.empty, nothing, Ledger.Closed, Ledger.Open, Ledger.BlanketOpen, Ledger.SingleOpen,
      Table.get?, replay]
  marked line := by simp [Ledger.empty, nothing, Ledger.marks]
  file := by simp [Ledger.empty, nothing]

theorem exists_mem_snoc {α : Type} {p : α → Prop} {l : List α} {a : α} :
    (∃ x ∈ l ++ [a], p x) ↔ (∃ x ∈ l, p x) ∨ p a := by
  simp only [List.mem_append, List.mem_singleton]
  constructor
  · rintro ⟨x, hx | rfl, h⟩
    · exact Or.inl ⟨x, hx, h⟩
    · exact Or.inr h
  · rintro (⟨x, hx, h⟩ | h)
    · exact ⟨x, Or.inl hx, h⟩
    · exact ⟨a, Or.inr rfl, h⟩

/-- A directive of another verb targets no line. -/
theorem not_targetsLine (hd : w.current.directive? = some d) (hverb : d.verb ≠ .disableLine)
    (line : Nat) : ¬ TargetsLine rule line w := by
  rintro ⟨d', hd', hv, -⟩
  rw [hd] at hd'
  obtain rfl := Option.some.inj hd'
  exact hverb hv

/-- A directive of another verb does not silence the file. -/
theorem not_silencesFile (hd : w.current.directive? = some d) (hverb : d.verb ≠ .disableFile) :
    ¬ SilencesFile w.current := by
  rintro ⟨d', hd', hv, -⟩
  rw [hd] at hd'
  obtain rfl := Option.some.inj hd'
  exact hverb hv

/-- The replay after one more token that spells a directive. -/
theorem replay_seen (hd : w.current.directive? = some d) (line : Nat) :
    replay rule line ((seen ++ [w]).map (·.current)) =
      if w.current.start.line ≤ line then flick rule (replay rule line (seen.map (·.current))) d
      else replay rule line (seen.map (·.current)) := by
  rw [List.map_append, List.map_singleton, replay_append_singleton, hd]

theorem isAbout_iff {rule : String} :
    d.isAbout rule = true ↔ d.rules = [] ∨ rule ∈ d.rules := by
  simp [Directive.isAbout]

theorem flick_of_ne (hdisable : d.verb ≠ .disable) (henable : d.verb ≠ .enable) (rule : String)
    (off : Bool) : flick rule off d = off := by
  unfold flick
  split
  · cases hverb : d.verb with
    | disable => exact absurd hverb hdisable
    | enable => exact absurd hverb henable
    | disableLine | disableFile => rfl
  · rfl

/-- The mark of a line directive covers a rule on a line exactly if the directive targets the line and
is about the rule. -/
theorem targetsLine_iff (hd : w.current.directive? = some d) (hverb : d.verb = .disableLine)
    {line : Nat} :
    TargetsLine rule line w ↔ Covers rule line ⟨scopeOf d.rules, .line (targetLine w)⟩ := by
  have hscope : (scopeOf d.rules).covers rule = true ↔ d.isAbout rule = true := by
    rw [isAbout_iff]
    cases d.rules with
    | nil => simp [scopeOf, Scope.covers]
    | cons name names => simp [scopeOf, Scope.covers]
  simp only [TargetsLine, hd, Option.some.injEq, exists_eq_left', hverb, true_and, Covers,
    Span.contains, beq_iff_eq, hscope]
  exact ⟨fun h => ⟨h.2.symm, h.1⟩, fun h => ⟨h.2, h.1.symm⟩⟩

theorem step_eq (known : List String) (ledger : Ledger) (w : Window) :
    step known ledger w =
      match w.current.directive? with
      | some d => obey known ledger w d
      | none => ledger := by
  unfold step Token.directive?
  split <;> rfl

namespace Ledger.Reflects

open Ledger

/-- The bound may be lowered further down the document. -/
theorem raise {lower : Nat} (h : ledger.Reflects rule seen bound) (hle : bound ≤ lower) :
    ledger.Reflects rule seen lower :=
  { h with
    started := fun first hfirst => Nat.le_trans (h.started first hfirst) hle
    ended := fun line hline => h.ended line (Nat.le_trans hle hline) }

/-- One more token that neither targets a line nor silences the file: what is left to show is that
the stretches follow the switch. -/
theorem snoc (h : ledger.Reflects rule seen bound) (hkept : Ledger.Kept ledger after)
    (hline : ∀ line, ¬ TargetsLine rule line w) (hfile : ¬ SilencesFile w.current)
    (hstarted : ∀ first, after.blanket = some first ∨ after.single.get? rule = some first →
      first ≤ bound)
    (hended : ∀ line, bound ≤ line → ¬ after.Closed rule line)
    (hswitched : ∀ line, after.Closed rule line ∨ after.Open rule line ↔
      replay rule line ((seen ++ [w]).map (·.current)) = true) :
    after.Reflects rule (seen ++ [w]) bound where
  nodup := hkept.nodup
  started := hstarted
  ended := hended
  switched := hswitched
  marked line := by
    rw [hkept.marks, h.marked, exists_mem_snoc]
    simp [hline line]
  file := by
    rw [hkept.file, h.file, exists_mem_snoc]
    simp [hfile]

theorem ignored (h : ledger.Reflects rule seen bound) (hd : w.current.directive? = none) :
    ledger.Reflects rule (seen ++ [w]) bound := by
  refine h.snoc ⟨rfl, rfl, h.nodup⟩ ?_ ?_ h.started h.ended fun line => ?_
  · rintro line ⟨d, hd', -⟩
    rw [hd] at hd'
    simp at hd'
  · rintro ⟨d, hd', -⟩
    rw [hd] at hd'
    simp at hd'
  · rw [List.map_append, List.map_singleton, replay_append_singleton, hd]
    exact h.switched line

theorem disabled (h : ledger.Reflects rule seen w.current.start.line)
    (hd : w.current.directive? = some d) (hverb : d.verb = .disable) :
    (ledger.disable w.current.start.line d.rules).Reflects rule (seen ++ [w])
      w.current.start.line := by
  have hfound := disable_found ledger w.current.start.line d.rules
  have hkept : Ledger.Kept ledger (ledger.disable w.current.start.line d.rules) :=
    ⟨by rw [marks, hfound]; rfl, by rw [hfound], nodup_disable h.nodup _ _⟩
  have hclosed : ∀ line, (ledger.disable w.current.start.line d.rules).Closed rule line ↔
      ledger.Closed rule line := by
    intro line
    unfold Closed
    rw [hfound]
  refine h.snoc hkept (not_targetsLine hd (by simp [hverb])) (not_silencesFile hd (by simp [hverb]))
    (disable_started h.started d.rules)
    (fun line hline hc => h.ended line hline ((hclosed line).mp hc)) fun line => ?_
  rw [hclosed, replay_seen hd, flick, hverb]
  by_cases habout : d.isAbout rule = true
  · -- Off from this line down, and further up as it was.
    rw [disable_open h.started (isAbout_iff.mp habout), ← or_assoc, h.switched]
    by_cases hline : w.current.start.line ≤ line
    · simp [habout, hline]
    · simp [hline]
  · obtain ⟨hne, hmem⟩ := not_or.mp (isAbout_iff.not.mp habout)
    rw [disable_open_of_not_mem hne hmem, h.switched]
    simp [habout]

theorem enabled (h : ledger.Reflects rule seen w.current.start.line) (hknown : rule ∈ known)
    (hd : w.current.directive? = some d) (hverb : d.verb = .enable) :
    (ledger.enable known w.current.start.line d.rules).Reflects rule (seen ++ [w])
      w.current.start.line := by
  have hstarted := h.started
  by_cases habout : d.isAbout rule = true
  · -- What was open is closed on the line above, so nothing is off from this line down.
    have hshut := enable_shut h.nodup hknown (isAbout_iff.mp habout) w.current.start.line
    refine h.snoc (enable_kept h.nodup known _ _) (not_targetsLine hd (by simp [hverb]))
      (not_silencesFile hd (by simp [hverb])) ?_ (fun line hline hc => ?_) fun line => ?_
    · rintro first (hb | hs)
      · exact absurd (hshut.blanket.symm.trans hb) (by simp)
      · exact absurd (hshut.single.symm.trans hs) (by simp)
    · rcases (hshut.closed line).mp hc with hc | ⟨-, hlt⟩
      · exact h.ended line hline hc
      · omega
    · rw [replay_seen hd, flick, if_pos habout, hverb, hshut.closed, or_iff_left hshut.not_open]
      by_cases hline : w.current.start.line ≤ line
      · simp [hline, h.ended line hline, Nat.not_lt.mpr hline]
      · simp [hline, ← h.switched, Nat.lt_of_not_le hline]
  · -- Other rules are enabled. A blanket gives way to a disable by name, without a gap for this one.
    obtain ⟨hne, hmem⟩ := not_or.mp (isAbout_iff.not.mp habout)
    have hmoved := enable_moved h.nodup hknown hne hmem w.current.start.line
    refine h.snoc (enable_kept h.nodup known _ _) (not_targetsLine hd (by simp [hverb]))
      (not_silencesFile hd (by simp [hverb])) ?_ (fun line hline hc => ?_) fun line => ?_
    · exact hmoved.started h.started
    · rcases (hmoved.closed line).mp hc with hc | ⟨-, hlt⟩
      · exact h.ended line hline hc
      · omega
    · rw [replay_seen hd, flick, if_neg habout, ite_self, ← h.switched]
      exact hmoved.closed_or_open h.started line

/-- A line directive leaves a mark on its target and nothing else. -/
theorem lineDisabled (h : ledger.Reflects rule seen bound) (hd : w.current.directive? = some d)
    (hverb : d.verb = .disableLine) :
    (ledger.disableLine (targetLine w) d.rules).Reflects rule (seen ++ [w]) bound := by
  have hclosed : ∀ line, (ledger.disableLine (targetLine w) d.rules).Closed rule line ↔
      ledger.Closed rule line := by
    intro line
    rw [disableLine, record_closed]
    simp [Span.isLine]
  have hmarks : (ledger.disableLine (targetLine w) d.rules).marks =
      ledger.marks ++ [⟨scopeOf d.rules, .line (targetLine w)⟩] := record_marks ..
  exact
    { nodup := h.nodup
      started := h.started
      ended := fun line hline hc => h.ended line hline ((hclosed line).mp hc)
      switched := fun line => by
        rw [hclosed, replay_seen hd, flick_of_ne (by simp [hverb]) (by simp [hverb]), ite_self]
        exact h.switched line
      marked := fun line => by
        rw [hmarks, exists_mem_snoc, exists_mem_snoc, h.marked, targetsLine_iff hd hverb]
      file := by
        rw [exists_mem_snoc, or_iff_left (not_silencesFile hd (by simp [hverb]))]
        exact h.file }

theorem fileDisabled (h : ledger.Reflects rule seen bound) (hd : w.current.directive? = some d)
    (hverb : d.verb = .disableFile) :
    (ledger.disableFile w.current.start.line).Reflects rule (seen ++ [w]) bound := by
  have hsilences : SilencesFile w.current ↔ w.current.start.line = 1 := by
    simp [SilencesFile, hd, hverb]
  -- Whether or not the directive takes effect, it touches the one flag and nothing else.
  have hsame : ∀ ledger' : Ledger, ledger'.found.intervals = ledger.found.intervals →
      ledger'.blanket = ledger.blanket → ledger'.single = ledger.single →
      (ledger'.found.fileDisabled = true ↔
        ledger.found.fileDisabled = true ∨ w.current.start.line = 1) →
      ledger'.Reflects rule (seen ++ [w]) bound := by
    intro ledger' hintervals hblanket hsingle hfile
    exact
      { nodup := hsingle ▸ h.nodup
        started := by rw [hblanket, hsingle]; exact h.started
        ended := by unfold Closed; rw [hintervals]; exact h.ended
        switched := fun line => by
          rw [replay_seen hd, flick_of_ne (by simp [hverb]) (by simp [hverb]), ite_self,
            ← h.switched, Closed, Open, BlanketOpen, SingleOpen, hintervals, hblanket, hsingle]
          exact Iff.rfl
        marked := fun line => by
          rw [exists_mem_snoc, or_iff_left (not_targetsLine hd (by simp [hverb]) line), ← h.marked,
            marks, hintervals]
          exact Iff.rfl
        file := by rw [hfile, exists_mem_snoc, hsilences, h.file] }
  unfold disableFile
  split
  · rename_i hline
    exact hsame _ rfl rfl rfl (by simp [hline])
  · rename_i hline
    exact hsame _ rfl rfl rfl (by simp [hline])

/-- **One token.** The tokens come in order of their lines, so the bound moves on to the line of the
token. -/
theorem step (h : ledger.Reflects rule seen bound) (hknown : rule ∈ known)
    (hle : bound ≤ w.current.start.line) :
    (step known ledger w).Reflects rule (seen ++ [w]) w.current.start.line := by
  have h := h.raise hle
  cases hd : w.current.directive? with
  | none =>
    rw [step_eq, hd]
    exact h.ignored hd
  | some d =>
    rw [step_eq, hd]
    show (obey known ledger w d).Reflects rule (seen ++ [w]) w.current.start.line
    unfold obey
    cases hverb : d.verb with
    | disable => exact h.disabled hd hverb
    | enable => exact h.enabled hknown hd hverb
    | disableLine => exact h.lineDisabled hd hverb
    | disableFile => exact h.fileDisabled hd hverb

/-- **The whole walk**, from any ledger that reflects what was seen before. -/
theorem run (hknown : rule ∈ known) :
    ∀ (ws : List Window) {ledger : Ledger} {seen : List Window} {bound : Nat},
      ledger.Reflects rule seen bound →
      (ws.map (·.current)).Pairwise (fun a b => a.start.line ≤ b.start.line) →
      (∀ w ∈ ws, bound ≤ w.current.start.line) →
      ∃ bound, (ws.foldl (Suppressions.step known) ledger).Reflects rule (seen ++ ws) bound
  | [], _, seen, bound, h, _, _ => ⟨bound, by simpa using h⟩
  | w :: ws, ledger, seen, bound, h, hsorted, hle => by
    obtain ⟨hhead, htail⟩ := List.pairwise_cons.mp hsorted
    have hnext := h.step hknown (hle w List.mem_cons_self)
    have hbelow : ∀ w' ∈ ws, w.current.start.line ≤ w'.current.start.line :=
      fun w' hw' => hhead _ (List.mem_map_of_mem (f := fun w => w.current) hw')
    obtain ⟨last, hlast⟩ := run hknown ws hnext htail hbelow
    exact ⟨last, by simpa using hlast⟩

end Ledger.Reflects

/-! ## The theorem -/

/-- The intervals of what is still open at the end cover what `Open` says. -/
theorem exists_mem_remaining (hnd : ledger.single.keys.Nodup) {line : Nat} :
    (∃ i ∈ ledger.remaining, Covers rule line i) ↔ ledger.Open rule line := by
  simp only [Ledger.remaining, List.mem_append, Option.mem_toList, Option.map_eq_some_iff,
    List.mem_map, Prod.exists]
  constructor
  · rintro ⟨i, ⟨first, hfirst, rfl⟩ | ⟨name, first, hmem, rfl⟩, hspan, hscope⟩
    · exact Or.inl ⟨first, hfirst, by simpa [Span.contains] using hspan⟩
    · have hname : rule = name := by simpa [Scope.covers] using hscope
      subst hname
      exact Or.inr ⟨first, (Table.get?_eq_some_iff hnd).mpr hmem, by simpa [Span.contains] using hspan⟩
  · rintro (⟨first, hfirst, hle⟩ | ⟨first, hfirst, hle⟩)
    · exact ⟨_, Or.inl ⟨first, hfirst, rfl⟩, by simpa [Span.contains] using hle, rfl⟩
    · exact ⟨_, Or.inr ⟨rule, first, Table.mem_of_get?_eq_some hfirst, rfl⟩,
        by simpa [Span.contains] using hle, by simp [Scope.covers]⟩

/-- Everything recorded is a mark or a closed stretch. -/
theorem exists_mem_intervals {line : Nat} :
    (∃ i ∈ ledger.found.intervals, Covers rule line i) ↔
      (∃ i ∈ ledger.marks, Covers rule line i) ∨ ledger.Closed rule line := by
  simp only [Ledger.marks, Ledger.Closed, List.mem_filter]
  constructor
  · rintro ⟨i, hi, hcov⟩
    cases hspan : i.span.isLine with
    | true => exact Or.inl ⟨i, ⟨hi, hspan⟩, hcov⟩
    | false => exact Or.inr ⟨i, hi, hspan, hcov⟩
  · rintro (⟨i, ⟨hi, -⟩, hcov⟩ | ⟨i, hi, -, hcov⟩)
    · exact ⟨i, hi, hcov⟩
    · exact ⟨i, hi, hcov⟩

theorem isSuppressed_iff {s : Suppressions} (hfile : s.fileDisabled = false)
    (hstructural : rule ≠ Problem.syntaxRule) (hinternal : rule ≠ Problem.internalRule) {line : Nat} :
    s.isSuppressed rule line = true ↔ ∃ i ∈ s.intervals, Covers rule line i := by
  simp [isSuppressed, hfile, hstructural, hinternal, Covers]

/-- **Suppression equals replaying the directives.** On tokens in order of their lines, and unless a
file directive took effect, a known rule is silent on a line exactly if a line directive about it
targets the line, or the switch of the rule is off once every `disable` and `enable` on the line or
above it has been replayed. -/
theorem isSuppressed_iff_replay {known : List String} {tokens : List Token} {rule : String}
    (hsorted : tokens.Pairwise fun a b => a.start.line ≤ b.start.line) (hknown : rule ∈ known)
    (hstructural : rule ≠ Problem.syntaxRule) (hinternal : rule ≠ Problem.internalRule)
    (hfile : ∀ t ∈ tokens, ¬ SilencesFile t) (line : Nat) :
    (collect known tokens).isSuppressed rule line = true ↔
      (∃ w ∈ Window.all tokens, TargetsLine rule line w) ∨ replay rule line tokens = true := by
  have hcurrent := Window.map_current_all tokens
  obtain ⟨bound, h⟩ := Ledger.Reflects.run hknown (Window.all tokens) (Ledger.reflects_empty rule)
    (hcurrent.symm ▸ hsorted) (fun w _ => Nat.zero_le _)
  rw [List.nil_append] at h
  have hnotFile : (collect known tokens).fileDisabled = false := by
    refine Bool.eq_false_iff.mpr fun htrue => ?_
    obtain ⟨w, hw, hsilences⟩ := h.file.mp htrue
    exact hfile w.current (Window.current_mem hw) hsilences
  rw [isSuppressed_iff hnotFile hstructural hinternal, ← h.marked]
  have hswitched := h.switched line
  rw [hcurrent] at hswitched
  rw [← hswitched, ← or_assoc, ← exists_mem_intervals, ← exists_mem_remaining h.nodup]
  simp only [collect, List.mem_append, or_and_right, exists_or]

/-- A comment at the start of a line. -/
def remark (line : Nat) (text : String) : Token :=
  ⟨.comment, text.toList, ⟨line, 1⟩, ⟨line, text.length + 1⟩⟩

/-- A blanket disable around a disable by name, dissolved by enabling another rule, with a line
directive and a change of mind on one line. -/
def remarks : List Token :=
  [remark 1 "# ymlint disable", remark 3 "# ymlint disable rule:b",
    remark 5 "# ymlint enable rule:a", remark 5 "# ymlint disable-line rule:a",
    remark 7 "# ymlint enable", remark 7 "# ymlint disable rule:a"]

theorem isSuppressed_remarks :
    (remarks.Pairwise fun a b => a.start.line ≤ b.start.line) ∧
      (∀ t ∈ remarks, ¬ SilencesFile t) ∧
      (collect ["a", "b"] remarks).isSuppressed "b" 6 = true ∧
      (collect ["a", "b"] remarks).isSuppressed "a" 5 = false := by
  have hsorted : remarks.Pairwise fun a b => a.start.line ≤ b.start.line := by decide
  have hfile : ∀ t ∈ remarks, ¬ SilencesFile t := by decide +kernel
  refine ⟨hsorted, hfile, ?_, Bool.eq_false_iff.mpr ?_⟩
  · rw [isSuppressed_iff_replay hsorted (by decide) (by decide) (by decide) hfile]
    decide +kernel
  · rw [Ne, isSuppressed_iff_replay hsorted (by decide) (by decide) (by decide) hfile]
    decide +kernel

end Suppressions

end YamlStyle
