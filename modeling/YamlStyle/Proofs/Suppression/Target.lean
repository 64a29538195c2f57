import YamlStyle.Proofs.Scanner.Comments
import YamlStyle.Proofs.Suppression.Replay
import YamlStyle.Proofs.Token.Segment

/-!
# What a line directive targets

A line directive is about the line it stands on if there is something before it, and about the next line
if it stands alone. That is how one reads it, in the document. `targetLine` does not look at the
document. It looks back over the tokens of a stream, passes by comments and line breaks, and compares the
line on which the token it comes to *ends* with the line of the comment.

`disableLine_targets` says that the two agree. It takes three facts about the scanner. No content is
lost, so whatever stands before a comment is in some token. Tokens do not overlap, so the one that starts
last before the comment is also the one that ends last. And no token ends right behind a break or in the
blanks before a comment, so one that ends on the line of the comment has a character there.
-/

set_option autoImplicit false

namespace YamlStyle

/-! ## The marks of line directives -/

namespace Suppressions

/-- The interval that the token of a window leaves behind if it is a line directive. -/
def lineMark? (w : Window) : Option Interval :=
  match w.current.directive? with
  | some ⟨.disableLine, rules⟩ => some ⟨scopeOf rules, .line (targetLine w)⟩
  | _ => none

/-- One token adds its mark, if it has one, and touches no other. -/
theorem step_marks {ledger : Ledger} (hnd : ledger.single.keys.Nodup) (known : List String) (w : Window) :
    (step known ledger w).marks = ledger.marks ++ (lineMark? w).toList ∧
      (step known ledger w).single.keys.Nodup := by
  rw [step_eq, lineMark?]
  cases w.current.directive? with
  | none => exact ⟨(List.append_nil _).symm, hnd⟩
  | some d =>
    obtain ⟨verb, rules⟩ := d
    cases verb with
    | disable =>
      refine ⟨?_, Ledger.nodup_disable hnd _ _⟩
      show (ledger.disable w.current.start.line rules).marks = ledger.marks ++ []
      rw [Ledger.marks, Ledger.disable_found, List.append_nil]
      rfl
    | enable =>
      have hkept := Ledger.enable_kept hnd known w.current.start.line rules
      exact ⟨hkept.marks.trans (List.append_nil _).symm, hkept.nodup⟩
    | disableLine => exact ⟨Ledger.record_marks .., hnd⟩
    | disableFile =>
      show (ledger.disableFile _).marks = ledger.marks ++ [] ∧ (ledger.disableFile _).single.keys.Nodup
      rw [List.append_nil, Ledger.disableFile]
      split
      · exact ⟨rfl, hnd⟩
      · exact ⟨rfl, hnd⟩

theorem foldl_step_marks {ledger : Ledger} (hnd : ledger.single.keys.Nodup) (known : List String)
    (ws : List Window) :
    (ws.foldl (step known) ledger).marks = ledger.marks ++ ws.filterMap lineMark? := by
  induction ws generalizing ledger with
  | nil => exact (List.append_nil _).symm
  | cons w ws ih =>
    obtain ⟨hmarks, hnodup⟩ := step_marks hnd known w
    rw [List.foldl_cons, ih hnodup, hmarks, List.append_assoc, List.filterMap_cons]
    cases lineMark? w <;> rfl

theorem filter_isLine_remaining (ledger : Ledger) :
    ledger.remaining.filter (·.span.isLine) = [] := by
  rw [List.filter_eq_nil_iff]
  intro i hi
  rcases List.mem_append.mp hi with hi | hi
  · obtain ⟨first, -, rfl⟩ := Option.map_eq_some_iff.mp (Option.mem_toList.mp hi)
    exact Bool.false_ne_true
  · obtain ⟨entry, -, rfl⟩ := List.mem_map.mp hi
    exact Bool.false_ne_true

/-- The line intervals of a document are the marks of its windows, in order. -/
theorem collect_marks (known : List String) (tokens : List Token) :
    (collect known tokens).intervals.filter (·.span.isLine) =
      (Window.all tokens).filterMap lineMark? := by
  have hempty : Ledger.empty.single.keys.Nodup := List.nodup_nil
  have hmarks := foldl_step_marks hempty known (Window.all tokens)
  rw [collect, List.filter_append, filter_isLine_remaining, List.append_nil]
  exact hmarks

end Suppressions

/-! ## Looking back -/

namespace TokenStream

variable {text : Text} {scan : Scan}

/-- The last of some raw tokens that is neither a comment nor a line break. -/
def lastSignificant? (above : List RawToken) : Option RawToken :=
  above.reverse.find? fun t => t.kind != .comment && t.kind != .lineBreak

/-- Looking back from a window ends at the last significant raw token, or at the start of the stream. -/
theorem targetLine_eq {w : Window} {above : List RawToken}
    (h : w.before = above.reverse.map (place text (.ofText text)) ++
      [place text (.ofText text) ⟨.streamStart, 0, 0⟩]) :
    Suppressions.targetLine w =
      match lastSignificant? above with
      | some u =>
        if !u.kind.isPseudo && ((Index.ofText text).locate u.stop).line == w.current.start.line then
          w.current.start.line
        else w.current.start.line + 1
      | none => w.current.start.line + 1 := by
  have hfind : w.previousSignificant? =
      ((lastSignificant? above).map (place text (.ofText text))).or
        (some (place text (.ofText text) ⟨.streamStart, 0, 0⟩)) := by
    rw [Window.previousSignificant?, h, List.find?_append, List.find?_map]
    rfl
  rw [Suppressions.targetLine, hfind]
  cases lastSignificant? above with
  | none => rfl
  | some u => rfl

/-- The last significant raw token, and that nothing significant comes after it. -/
theorem of_lastSignificant? {above : List RawToken} {u : RawToken} (h : lastSignificant? above = some u)
    (hordered : above.Pairwise fun a b => a.start ≤ b.start) :
    u ∈ above ∧ u.kind ≠ .comment ∧ u.kind ≠ .lineBreak ∧
      ∀ v ∈ above, v.kind ≠ .comment → v.kind ≠ .lineBreak → v.start ≤ u.start := by
  obtain ⟨hu, later, earlier, hparts, hlater⟩ := List.find?_eq_some_iff_append.mp h
  have hkinds : u.kind ≠ .comment ∧ u.kind ≠ .lineBreak := by simpa using hu
  have hmem : ∀ v, v ∈ above ↔ v ∈ later ∨ v = u ∨ v ∈ earlier := by
    intro v
    rw [← List.mem_reverse, hparts, List.mem_append, List.mem_cons]
  refine ⟨(hmem u).mpr (Or.inr (Or.inl rfl)), hkinds.1, hkinds.2, ?_⟩
  intro v hv hcomment hbreak
  have hreverse := List.pairwise_reverse.mpr hordered
  rw [hparts] at hreverse
  rcases (hmem v).mp hv with hv | rfl | hv
  · have hnot := hlater v hv
    exact absurd hnot (by simp [hcomment, hbreak])
  · exact Nat.le_refl _
  · exact (List.pairwise_cons.mp (List.pairwise_append.mp hreverse).2.1).1 v hv

end TokenStream

/-! ## What stands before a comment of a stream -/

section

variable {text : Text} {above below : List RawToken} {t : RawToken}

theorem isSound_of_mem_tokens {u : RawToken} (hu : u ∈ (yamlScanner text).tokens) : u.IsSound text := by
  obtain ⟨piece, hspells, -⟩ := exists_spells hu
  have hstop := le_width_of_isBoundary hspells.isBoundary.2
  exact ⟨Nat.le_of_lt (extent_of_mem_tokens hu).1, hstop, hspells.isBoundary⟩

/-- A token of the scan that starts before a token of the stream comes before it in the stream. -/
theorem mem_above (hbody : TokenStream.body text (yamlScanner text) = above ++ t :: below)
    {u : RawToken} (hu : u ∈ (yamlScanner text).tokens) (hlt : u.start < t.start) : u ∈ above := by
  have ht : t ∈ TokenStream.body text (yamlScanner text) := by simp [hbody]
  have hcut := (TokenStream.of_mem_body ht).1
  have hkept : u ∈ TokenStream.body text (yamlScanner text) := by
    refine TokenStream.mem_body_iff.mpr (Or.inl (List.mem_filter.mpr ⟨hu, ?_⟩))
    exact decide_eq_true ⟨isSound_of_mem_tokens hu, Nat.lt_trans hlt hcut⟩
  have hordered := TokenStream.pairwise_body text (yamlScanner text)
  rw [hbody] at hkept hordered
  rcases List.mem_append.mp hkept with h | h
  · exact h
  · rcases List.mem_cons.mp h with rfl | h
    · omega
    · have hle := (List.pairwise_cons.mp (List.pairwise_append.mp hordered).2.1).1 u h
      omega

/-- A significant token further up in the stream than a comment is one of the scan, and ends before the
comment. -/
theorem token_above (hkind : t.kind = .comment)
    (hbody : TokenStream.body text (yamlScanner text) = above ++ t :: below) {u : RawToken}
    (hu : u ∈ above) (hcomment : u.kind ≠ .comment) (hbreak : u.kind ≠ .lineBreak) :
    u ∈ (yamlScanner text).tokens ∧ u.stop ≤ t.start := by
  have htbody : t ∈ TokenStream.body text (yamlScanner text) := by simp [hbody]
  have hubody : u ∈ TokenStream.body text (yamlScanner text) := by simp [hbody, hu]
  have ht := TokenStream.mem_tokens_of_mem_body htbody (by simp [hkind])
  have hmem := TokenStream.mem_tokens_of_mem_body hubody hbreak
  have hordered := TokenStream.pairwise_body text (yamlScanner text)
  rw [hbody] at hordered
  refine ⟨hmem, apart hmem ht ?_ ((List.pairwise_append.mp hordered).2.2 u hu t List.mem_cons_self)⟩
  rintro rfl
  exact hcomment hkind

theorem pairwise_above (hbody : TokenStream.body text (yamlScanner text) = above ++ t :: below) :
    above.Pairwise fun a b => a.start ≤ b.start := by
  have hordered := TokenStream.pairwise_body text (yamlScanner text)
  rw [hbody] at hordered
  exact (List.pairwise_append.mp hordered).1

namespace LineComment

variable {l : Line} {front back : Text}

theorem exists_char_of_last (h : LineComment text t l front back) (hkind : t.kind = .comment)
    (hbody : TokenStream.body text (yamlScanner text) = above ++ t :: below) {u : RawToken}
    (hlast : TokenStream.lastSignificant? above = some u)
    (hline : ((Index.ofText text).locate u.stop).line = l.number) : ∃ c ∈ front, isBlank c = false := by
  obtain ⟨hu, hcomment, hbreak, -⟩ := TokenStream.of_lastSignificant? hlast (pairwise_above hbody)
  obtain ⟨hmem, hstop⟩ := token_above hkind hbody hu hcomment hbreak
  obtain ⟨l', hl', hstart, hend, -⟩ := exists_line_of_stop hmem
  rw [Index.line_locate hl' (Nat.le_of_lt hstart) hend] at hline
  obtain rfl := eq_of_number_eq hl' h.mem hline
  exact h.exists_char_of_token hmem hstart hstop

theorem exists_last_of_char (h : LineComment text t l front back) (hkind : t.kind = .comment)
    (hbody : TokenStream.body text (yamlScanner text) = above ++ t :: below) {c : Char}
    (hc : c ∈ front) (hblank : isBlank c = false) :
    ∃ u, TokenStream.lastSignificant? above = some u ∧ u.kind.isPseudo = false ∧
      ((Index.ofText text).locate u.stop).line = l.number := by
  have htbody : t ∈ TokenStream.body text (yamlScanner text) := by simp [hbody]
  have ht := TokenStream.mem_tokens_of_mem_body htbody (by simp [hkind])
  obtain ⟨v, hv, hvcomment, hvstart, hvstop⟩ := h.exists_token_before ht hc hblank
  have hvbreak : v.kind ≠ .lineBreak := by
    intro hbreak
    have hpseudo := isPseudo_of_mem_tokens hv
    rw [hbreak] at hpseudo
    exact absurd hpseudo (by simp [TokenKind.isPseudo])
  have hvabove := mem_above hbody hv (Nat.lt_of_lt_of_le (extent_of_mem_tokens hv).1 hvstop)
  cases hlast : TokenStream.lastSignificant? above with
  | none =>
    have hnone := List.find?_eq_none.mp hlast v (List.mem_reverse.mpr hvabove)
    exact absurd hnone (by simp [hvcomment, hvbreak])
  | some u =>
    obtain ⟨hu, hcomment, hbreak, hlatest⟩ := TokenStream.of_lastSignificant? hlast (pairwise_above hbody)
    obtain ⟨hmem, hstop⟩ := token_above hkind hbody hu hcomment hbreak
    -- The last one to start is the last one to end.
    have hlater : v.stop ≤ u.stop := by
      by_cases hvu : v = u
      · rw [hvu]
      · have hapart := apart hv hmem hvu (hlatest v hvabove hvcomment hvbreak)
        exact Nat.le_trans hapart (Nat.le_of_lt (extent_of_mem_tokens hmem).1)
    have hbounds := h.bounds
    exact ⟨u, rfl, isPseudo_of_mem_tokens hmem, Index.line_locate h.mem (by omega) (by omega)⟩

/-- **Something other than blanks stands before a comment** exactly if the last significant token before
it ends on its line. -/
theorem preceded_iff (h : LineComment text t l front back) (hkind : t.kind = .comment)
    (hbody : TokenStream.body text (yamlScanner text) = above ++ t :: below) :
    (∃ u, TokenStream.lastSignificant? above = some u ∧ u.kind.isPseudo = false ∧
      ((Index.ofText text).locate u.stop).line = l.number) ↔ ∃ c ∈ front, isBlank c = false := by
  refine ⟨?_, ?_⟩
  · rintro ⟨u, hlast, -, hline⟩
    exact h.exists_char_of_last hkind hbody hlast hline
  · rintro ⟨c, hc, hblank⟩
    exact h.exists_last_of_char hkind hbody hc hblank

end LineComment

end

/-! ## The theorem -/

/-- Whether something other than blanks stands before a position on its line. -/
def isPreceded (text : Text) (p : Position) : Bool :=
  (lines text).any fun l => l.number == p.line && (l.content.take (p.column - 1)).any (!isBlank ·)

theorem LineComment.isPreceded_iff {text : Text} {t : RawToken} {l : Line} {front back : Text}
    (h : LineComment text t l front back) :
    isPreceded text ((Index.ofText text).locate t.start) = true ↔ ∃ c ∈ front, isBlank c = false := by
  rw [h.locate_start, isPreceded, List.any_eq_true]
  have htake : l.content.take (front.length + 1 - 1) = front := by
    rw [Nat.add_sub_cancel, h.content, List.take_left]
  refine ⟨?_, ?_⟩
  · rintro ⟨l', hl', hblank⟩
    rw [Bool.and_eq_true, beq_iff_eq] at hblank
    obtain rfl := eq_of_number_eq hl' h.mem hblank.1
    rw [htake] at hblank
    simpa using hblank.2
  · intro hblank
    refine ⟨l, h.mem, ?_⟩
    rw [htake]
    simpa using hblank

namespace Suppressions

/-- The interval of a line directive, read off the document. -/
def lineInterval? (text : Text) (t : Token) : Option Interval :=
  match t.directive? with
  | some ⟨.disableLine, rules⟩ =>
    some ⟨scopeOf rules, .line (if isPreceded text t.start then t.start.line else t.start.line + 1)⟩
  | _ => none

/-- Looking back over the tokens comes to the line that one reads off the document. -/
theorem targetLine_of_comment {text : Text} {w : Window}
    (hw : w ∈ Window.all (TokenStream.segment yamlScanner text).tokens)
    (hkind : w.current.kind = .comment) :
    targetLine w = if isPreceded text w.current.start then w.current.start.line
      else w.current.start.line + 1 := by
  obtain ⟨above, t, below, hbody, hcurrent, hbefore⟩ :=
    TokenStream.exists_body_of_window hw (by rw [hkind]; rfl)
  have htkind : t.kind = .comment := by
    rw [hcurrent] at hkind
    exact hkind
  have htbody : t ∈ TokenStream.body text (yamlScanner text) := by simp [hbody]
  obtain ⟨l, front, back, hcomment⟩ :=
    exists_lineComment (TokenStream.mem_tokens_of_mem_body htbody (by simp [htkind])) htkind
  have hstart : w.current.start = (Index.ofText text).locate t.start := by
    rw [hcurrent]
    rfl
  have hpreceded := hcomment.isPreceded_iff.trans (hcomment.preceded_iff htkind hbody).symm
  have hline : w.current.start.line = l.number := by rw [hstart, hcomment.locate_start]
  rw [TokenStream.targetLine_eq hbefore, hline]
  cases hlast : TokenStream.lastSignificant? above with
  | none =>
    rw [if_neg]
    rw [hstart, hpreceded, hlast]
    simp
  | some u =>
    have hsame : (!u.kind.isPseudo && ((Index.ofText text).locate u.stop).line == l.number) =
        isPreceded text w.current.start := by
      rw [Bool.eq_iff_iff, hstart, hpreceded, hlast]
      simp
    exact congrArg (fun b : Bool => if b then l.number else l.number + 1) hsame

theorem lineMark?_eq {text : Text} {w : Window}
    (hw : w ∈ Window.all (TokenStream.segment yamlScanner text).tokens) :
    lineMark? w = lineInterval? text w.current := by
  by_cases hkind : w.current.kind = .comment
  · rw [lineMark?, lineInterval?, targetLine_of_comment hw hkind]
  · have hnone : w.current.directive? = none := if_neg hkind
    rw [lineMark?, lineInterval?, hnone]

/-- What becomes of the line directives of a document. -/
structure LineDirectives (known : List String) (text : Text) : Prop where
  /-- A comment runs from its `#` to the end of the content of its line. -/
  runs : ∀ t ∈ (yamlScanner text).tokens, t.kind = .comment →
    ∃ l front back, LineComment text t l front back
  single : ∀ l ∈ lines text, ((yamlScanner text).tokens.filter fun t =>
    t.kind = .comment ∧ l.start ≤ t.start ∧ t.start < l.nextStart).length ≤ 1
  /-- So it does in the stream, where it is preceded if anything before it on the line is neither a space
  nor a tab. -/
  placed : ∀ t ∈ (TokenStream.segment yamlScanner text).tokens, t.kind = .comment →
    ∃ l ∈ lines text, ∃ front back, l.content = front ++ '#' :: back ∧ t.value = '#' :: back ∧
      t.start = ⟨l.number, front.length + 1⟩ ∧ t.stop = ⟨l.number, l.content.length + 1⟩ ∧
      (isPreceded text t.start = true ↔ ∃ c ∈ front, c ≠ ' ' ∧ c ≠ '\t')
  /-- The intervals of single lines are those of the line directives, in order: on their own line if
  something precedes them, and on the next line otherwise. -/
  recorded : (collect known (TokenStream.segment yamlScanner text).tokens).intervals.filter
    (·.span.isLine) = (TokenStream.segment yamlScanner text).tokens.filterMap (lineInterval? text)

/-- **A line directive targets its own line exactly if content precedes it.** -/
theorem disableLine_targets (known : List String) (text : Text) : LineDirectives known text where
  runs := by
    intro t ht hkind
    exact exists_lineComment ht hkind
  single := by
    intro l hl
    exact comments_of_line hl
  placed := by
    intro t ht hkind
    obtain ⟨u, hu, rfl⟩ := List.mem_map.mp ht
    replace hkind : u.kind = .comment := hkind
    have hmem : u ∈ (yamlScanner text).tokens :=
      TokenStream.mem_tokens_of_not_isPseudo hu (by rw [hkind]; rfl)
    obtain ⟨l, front, back, hcomment⟩ := exists_lineComment hmem hkind
    refine ⟨l, hcomment.mem, front, back, hcomment.content, ?_, hcomment.locate_start,
      hcomment.locate_stop, ?_⟩
    · rw [TokenStream.place, hcomment.spells.slice?_eq]
      rfl
    · refine hcomment.isPreceded_iff.trans ?_
      simp [isBlank]
  recorded := by
    rw [collect_marks]
    nth_rewrite 2 [← Window.map_current_all (TokenStream.segment yamlScanner text).tokens]
    rw [List.filterMap_map]
    exact List.filterMap_congr fun w hw => lineMark?_eq hw

end Suppressions

end YamlStyle
