import Mathlib.Data.List.Basic
import YamlStyle.Lint
import YamlStyle.Proofs.BlankLines.Above
import YamlStyle.Proofs.LineEnding.Stream
import YamlStyle.Proofs.Rule.Configuration
import YamlStyle.Proofs.Token.Window

/-!
# Linting under CR LF

Nothing the linter reports depends on whether lines end in LF or in CR LF. `lint_crlf` says so for
every document without CR and for every choice of the rules that come with the linter: the same
problems, at the same places, in the same order, and the same directives at work.

A rule **overlooks** endings if its check cannot tell a line or a token from its counterpart. The rules
of the catalog are shown to, and so are the two other readers of a document: the search for the marker
of directives, which holds no break, and the collection of suppressions, which reads comments, and
those are on one line.
-/

set_option autoImplicit false

namespace YamlStyle

variable {text : Text}

/-! ## The marker -/

theorem not_isPrefixOf_break {word : Text} (hne : word ≠ []) (hword : ∀ c ∈ word, isBreak c = false)
    {b : Char} (hb : isBreak b = true) (rest : Text) : word.isPrefixOf (b :: rest) = false := by
  cases word with
  | nil => exact absurd rfl hne
  | cons d word =>
    have hd : (d == b) = false := by
      refine beq_eq_false_iff_ne.mpr ?_
      rintro rfl
      exact absurd (hb.symm.trans (hword d List.mem_cons_self)) (by simp)
    rw [List.isPrefixOf, hd, Bool.false_and]

theorem isPrefixOf_crlf {word : Text} (hword : ∀ c ∈ word, isBreak c = false) (h : Unix text) :
    word.isPrefixOf (crlf text) = word.isPrefixOf text := by
  induction word generalizing text with
  | nil => simp
  | cons d word ih =>
    cases h with
    | nil => rfl
    | lf _ =>
      rw [crlf_lf, not_isPrefixOf_break (by simp) hword (by decide),
        not_isPrefixOf_break (by simp) hword (by decide)]
    | other hc hrest =>
      rw [crlf_other hc, List.isPrefixOf, List.isPrefixOf,
        ih (fun e he => hword e (List.mem_cons_of_mem _ he)) hrest]

/-- A word that holds no break occurs under CR LF exactly if it occurs. -/
theorem occursIn_crlf {word : Text} (hne : word ≠ []) (hword : ∀ c ∈ word, isBreak c = false)
    (h : Unix text) : occursIn word (crlf text) = occursIn word text := by
  induction h with
  | nil => rfl
  | lf _ ih =>
    have hbreak := fun {b} (hb : isBreak b = true) rest => not_isPrefixOf_break hne hword hb rest
    rw [crlf_lf, occursIn, occursIn, occursIn, hbreak (by decide), hbreak (by decide),
      hbreak (by decide), ih]
    rfl
  | @other c rest hc hrest ih =>
    rw [crlf_other hc, occursIn, occursIn, ← crlf_other hc,
      isPrefixOf_crlf hword (.other hc hrest), ih]

theorem isBreak_of_mem_marker {c : Char} (h : c ∈ marker) : isBreak c = false := by
  have hall : marker.all (!isBreak ·) = true := by decide
  simpa using List.all_eq_true.mp hall c h

/-! ## Rules -/

/-- A checker that finds the same in the counterpart of what it looks at. -/
inductive Checker.Overlooks : Checker → Prop
  | line {check : List Line → Line → Except Fault (List Violation)} :
      (∀ above l text, Unix text → l.Stands text →
        check (above.map Line.toCrlf) l.toCrlf = check above l) → Overlooks (.line check)
  | token {check : Window → Except Fault (List Violation)} :
      (∀ w, check (w.mapTokens (·.mapValue crlf)) = check w) → Overlooks (.token check)

/-- A rule that overlooks line endings, whatever its options. -/
def Rule.Overlooks (rule : Rule) : Prop :=
  ∀ options checker, rule.build options = .ok checker → checker.Overlooks

theorem TrailingSpaces.overlooks : TrailingSpaces.rule.Overlooks := by
  rintro options checker h
  obtain rfl := Except.ok.inj h
  exact .line fun above l text _ _ => rfl

theorem DocumentStart.overlooks : DocumentStart.rule.Overlooks := by
  rintro options checker h
  obtain rfl := Except.ok.inj h
  refine .token fun w => congrArg (fun v => Except.ok (Option.toList v)) ?_
  have hprevious := Window.previousSignificant?_mapTokens (·.mapValue crlf) (fun _ => rfl) w
  rw [check, check, lacksMarker, lacksMarker, hprevious, Option.map_map]
  rfl

namespace EmptyLines

theorem endingsAbove_lf {rest : Text} (h : Unix rest) :
    endingsAbove ('\n' :: rest) = endingsAbove.another (endingsAbove rest) := by
  rw [endingsAbove.eq_3]
  rintro rest' rfl
  exact unix_iff.mp h List.mem_cons_self

/-- The endings above a line are as many, and they go down to the bottom as well. -/
theorem endingsAbove_crlf {before : Text} (h : Unix before) :
    endingsAbove (crlf before.reverse).reverse = endingsAbove before := by
  induction h with
  | nil => rfl
  | @lf rest hrest ih =>
    -- Seen from below, the LF of a CR LF comes first.
    rw [List.reverse_cons, crlf_append, List.reverse_append, endingsAbove_lf hrest, ← ih]
    show endingsAbove ('\n' :: '\r' :: _) = _
    rw [endingsAbove]
    rfl
  | @other c rest hc _ ih =>
    rw [List.reverse_cons, crlf_append, List.reverse_append, crlf_other hc]
    show endingsAbove (c :: _) = _
    rw [endingsAbove_other hc, endingsAbove_other hc]

theorem continues_toCrlf {l : Line} (hunix : Unix text) (h : l.Stands text) :
    continues l.toCrlf = continues l := by
  have hafter := h.unix_after hunix
  rw [continues, continues, Line.toCrlf]
  simp only
  rcases h.ending_cases hunix with hnone | hlf
  · rw [hnone]
    rfl
  · rw [hlf]
    show "\r\n".toList.isPrefixOf (crlf l.after) = "\n".toList.isPrefixOf l.after
    generalize l.after = after at hafter
    cases hafter with
    | nil => rfl
    | lf _ => rfl
    | @other c rest hc _ =>
      have hne : c ≠ '\n' ∧ c ≠ '\r' := by simpa [isBreak] using hc
      rw [crlf_other hc]
      show ('\r' == c && _) = ('\n' == c && _)
      rw [beq_eq_false_iff_ne.mpr hne.1.symm, beq_eq_false_iff_ne.mpr hne.2.symm]
      rfl

theorem check_toCrlf (limits : Limits) {l : Line} (hunix : Unix text) (h : l.Stands text) :
    check limits l.toCrlf = check limits l := by
  have habove : endingsAbove l.toCrlf.before = endingsAbove l.before :=
    endingsAbove_crlf (h.unix_before hunix)
  have hbefore : l.toCrlf.before.isEmpty = l.before.isEmpty := by
    rw [Line.toCrlf, List.isEmpty_reverse, isEmpty_crlf, List.isEmpty_reverse]
  have hafter : l.toCrlf.after.isEmpty = l.after.isEmpty := isEmpty_crlf l.after
  rw [check, check, continues_toCrlf hunix h, l.isTerminated_toCrlf, habove, hbefore, hafter]
  rfl

theorem overlooks : EmptyLines.rule.Overlooks := by
  rintro options checker h
  obtain rfl := Except.ok.inj h
  refine .line fun above l text hunix hstands => ?_
  exact congrArg (fun v => Except.ok (Option.toList v)) (check_toCrlf _ hunix hstands)

end EmptyLines

theorem overlooks_of_mem_standardCatalog {rule : Rule} (h : rule ∈ standardCatalog) :
    rule.Overlooks := by
  simp only [standardCatalog, List.mem_cons, List.not_mem_nil, or_false] at h
  rcases h with rfl | rfl | rfl
  · exact DocumentStart.overlooks
  · exact EmptyLines.overlooks
  · exact TrailingSpaces.overlooks

/-! ## Running a rule -/

theorem withHistory_map (f : Line → Line) (above lines : List Line) :
    withHistory (above.map f) (lines.map f) =
      (withHistory above lines).map fun view => (view.1.map f, f view.2) := by
  induction lines generalizing above with
  | nil => rfl
  | cons l lines ih =>
    rw [List.map_cons, withHistory, withHistory, List.map_cons, ← List.map_cons, ih]

/-- A sweep that finds the same in each counterpart finds the same. -/
theorem sweep_map {α : Type} {rule : String} {level : Level} {place : α → Position}
    {check : α → Except Fault (List Violation)} {f : α → α} {items : List α}
    (hplace : ∀ a, place (f a) = place a) (hcheck : ∀ a ∈ items, check (f a) = check a) :
    sweep rule level place check (items.map f) = sweep rule level place check items := by
  induction items with
  | nil => rfl
  | cons a items ih =>
    rw [List.map_cons, sweep, sweep, hcheck a List.mem_cons_self, hplace,
      ih fun b hb => hcheck b (List.mem_cons_of_mem _ hb)]

theorem runRule_crlf (hunix : Unix text) {rule : Rule} (hrule : rule.Overlooks)
    (stream : Option TokenStream) (options : RuleOptions) :
    runRule (crlf text) (stream.map TokenStream.toCrlf) rule options =
      runRule text stream rule options := by
  have hchecker := hrule options
  unfold runRule
  cases hbuild : rule.build options with
  | error fault => rfl
  | ok checker =>
    cases hchecker checker hbuild with
    | @line check hline =>
      have hviews : withHistory [] (lines (crlf text)) = _ :=
        (congrArg (withHistory []) (lines_crlf hunix)).trans (withHistory_map _ [] (lines text))
      simp only [hviews]
      refine sweep_map (fun view => rfl) fun view hview => ?_
      rw [withHistory_eq] at hview
      exact hline view.1 view.2 text hunix (stands_of_mem_lines (mem_of_mem_lineViews hview))
    | @token check htoken =>
      cases stream with
      | none => rfl
      | some stream =>
        have hwindows := Window.all_map (·.mapValue crlf) stream.tokens
        simp only [Option.map_some, TokenStream.toCrlf, hwindows]
        exact sweep_map (fun w => rfl) fun w _ => htoken w

/-! ## Directives -/

namespace Suppressions

theorem targetLine_mapTokens (w : Window) :
    targetLine (w.mapTokens (·.mapValue crlf)) = targetLine w := by
  have hprevious := Window.previousSignificant?_mapTokens (·.mapValue crlf) (fun _ => rfl) w
  rw [targetLine, hprevious, targetLine]
  cases w.previousSignificant? <;> rfl

theorem obey_mapTokens (known : List String) (ledger : Ledger) (w : Window) (d : Directive) :
    obey known ledger (w.mapTokens (·.mapValue crlf)) d = obey known ledger w d := by
  rw [obey, obey, targetLine_mapTokens]
  rfl

theorem step_mapTokens (known : List String) (ledger : Ledger) {w : Window}
    (h : w.current.kind = .comment → crlf w.current.value = w.current.value) :
    step known ledger (w.mapTokens (·.mapValue crlf)) = step known ledger w := by
  by_cases hkind : w.current.kind = .comment
  · have hvalue : (w.mapTokens (·.mapValue crlf)).current.value = w.current.value := h hkind
    rw [step, step, if_pos hkind, hvalue]
    simp only [obey_mapTokens]
    exact if_pos hkind
  · rw [step, step, if_neg hkind]
    exact if_neg hkind

/-- **Directives take the same effect**, as their comments are on one line each. -/
theorem collect_crlf (known : List String) {tokens : List Token}
    (h : ∀ t ∈ tokens, t.kind = .comment → crlf t.value = t.value) :
    collect known (tokens.map (·.mapValue crlf)) = collect known tokens := by
  have hwalk : ((Window.all tokens).map (·.mapTokens (·.mapValue crlf))).foldl (step known) .empty =
      (Window.all tokens).foldl (step known) .empty := by
    rw [List.foldl_map]
    refine List.foldl_ext _ _ _ fun ledger w hw => ?_
    exact step_mapTokens known ledger (h w.current (Window.current_mem hw))
  rw [collect, Window.all_map, hwalk, collect]

end Suppressions

/-! ## The whole lint -/

namespace Linter

variable {linter : Linter}

theorem stream?_crlf (hunix : Unix text) (htokenizer : linter.tokenizer = yamlScanner) :
    linter.stream? (crlf text) = (linter.stream? text).map TokenStream.toCrlf := by
  have hmarker : occursIn marker (crlf text) = occursIn marker text :=
    occursIn_crlf (by decide) (fun c hc => isBreak_of_mem_marker hc) hunix
  rw [stream?, stream?, hmarker, htokenizer]
  split
  · rw [TokenStream.segment_crlf hunix]
    rfl
  · rfl

theorem findings_crlf (hunix : Unix text) (hrules : ∀ entry ∈ linter.config.rules, entry.1.Overlooks)
    (stream : Option TokenStream) :
    linter.findings (crlf text) (stream.map TokenStream.toCrlf) = linter.findings text stream := by
  rw [findings, findings]
  congr 1
  · exact List.flatMap_congr fun entry hentry =>
      runRule_crlf hunix (hrules entry hentry) stream entry.2
  · cases stream <;> rfl

theorem suppressions_crlf (htokenizer : linter.tokenizer = yamlScanner) :
    linter.suppressions ((linter.stream? text).map TokenStream.toCrlf) =
      linter.suppressions (linter.stream? text) := by
  rw [stream?, htokenizer]
  split
  · exact Suppressions.collect_crlf linter.config.known fun t ht hkind =>
      TokenStream.crlf_value_of_comment ht hkind
  · rfl

/-- **Linting does not depend on the line endings.** -/
theorem lint_crlf {settings : Settings} (h : ofSettings settings = .ok linter)
    (hcr : '\r' ∉ text) : linter.lint (crlf text) = linter.lint text := by
  have hunix := unix_iff.mpr hcr
  obtain ⟨htokenizer, hcatalog⟩ := of_ofSettings h
  have hrules := fun entry hentry => overlooks_of_mem_standardCatalog (hcatalog entry hentry)
  rw [lint, lint, report, report, stream?_crlf hunix htokenizer, findings_crlf hunix hrules,
    suppressions_crlf htokenizer]

/-- A document with a break in a quoted scalar, an escaped one in another, a block scalar, a directive,
blank lines and a collection that is left open. -/
def restless : Text :=
  "a: 'b\n\n  c' \nd: \"\\\n\"\ne: |\n  f\n\n\n\n# ymlint disable-line\ng: [h\n".toList

theorem lint_crlf_restless :
    ∃ linter, ofSettings [("document-start", .toggle true)] = .ok linter ∧ '\r' ∉ restless ∧
      linter.lint (crlf restless) = linter.lint restless := by
  have hsettings : ofSettings [("document-start", .toggle true)] =
      .ok ⟨.select standardCatalog [("document-start", some DocumentStart.rule.defaultOptions)],
        yamlScanner⟩ := rfl
  exact ⟨_, hsettings, by decide, lint_crlf hsettings (by decide)⟩

end Linter

end YamlStyle
