import YamlStyle.Proofs.Line.Locate
import YamlStyle.Proofs.Lint.Tokens
import YamlStyle.Proofs.Scanner.Onset
import YamlStyle.Proofs.Token.Segment
import YamlStyle.Proofs.Token.Window

/-!
# Every problem is in the document

The places of problems come from four sources. `empty-lines` names a line it was given,
`trailing-spaces` counts the characters of one, `document-start` takes the start of a token, and the
fault of a document is where its tokens are cut off. All of them **mark** a line of the document and a
column of it, or the one behind its end (`lint_marks`).

For tokens this is not a matter of course. The stream of a document that ends in a line ending has
tokens beyond its last line. But these are tokens the stream adds by itself, and what the scanner
reports begins at a character.

The rules of the catalog also answer every question. So there is no failure among the problems.
-/

set_option autoImplicit false

namespace YamlStyle

variable {text : Text}

/-! ## Places of the rules -/

theorem marks_line {l : Line} (h : l ∈ lines text) {column : Nat} (hpos : 1 ≤ column)
    (hle : column ≤ l.content.length + 1) : Marks text l.number column :=
  ⟨l, h, rfl, hpos, hle⟩

/-- Where there is some column of a line, there is the first. -/
theorem Marks.first {line column : Nat} (h : Marks text line column) : Marks text line 1 := by
  obtain ⟨l, hl, hnumber, -, -⟩ := h
  exact ⟨l, hl, hnumber, Nat.le_refl 1, Nat.le_add_left 1 _⟩

theorem Onset.marks {offset : Nat} (h : Onset text offset) :
    Marks text ((Index.ofText text).locate offset).line
      ((Index.ofText text).locate offset).column := by
  obtain ⟨front, c, back, htext, hlayout, rfl⟩ := h
  exact Index.marks_locate_of_char htext (Bool.or_eq_false_iff.mp hlayout).2

theorem length_stripBlanks_le (text : Text) : (stripBlanks text).length ≤ text.length := by
  induction text with
  | nil => exact Nat.le_refl 0
  | cons c cs ih =>
    rw [stripBlanks]
    cases hcs : stripBlanks cs with
    | nil =>
      show (if isBlank c then [] else [c]).length ≤ (c :: cs).length
      split <;> simp
    | cons d ds =>
      rw [hcs] at ih
      exact Nat.succ_le_succ ih

/-- The tokens the scanner reports start at places of the document. -/
theorem marks_start {t : Token} (ht : t ∈ (TokenStream.segment yamlScanner text).tokens)
    (hkind : t.kind.isPseudo = false) : Marks text t.start.line t.start.column := by
  rw [TokenStream.segment, TokenStream.tokens_ofScan] at ht
  obtain ⟨raw, hraw, rfl⟩ := List.mem_map.mp ht
  have hreported := TokenStream.mem_tokens_of_not_isPseudo hraw hkind
  exact ((onset_yamlScanner text).1 raw hreported).marks

/-- A fault is reported at a place of the document: there the cut is not pulled back. -/
theorem marks_error {e : SyntaxFault} (h : (TokenStream.segment yamlScanner text).error = some e) :
    Marks text e.position.line e.position.column := by
  obtain ⟨raw, hraw, rfl⟩ := Option.map_eq_some_iff.mp h
  have honset := (onset_yamlScanner text).2 raw hraw
  have hcut : TokenStream.cutoff text (yamlScanner text) = raw.offset := by
    obtain ⟨front, c, back, htext, -, hoffset⟩ := honset
    rw [TokenStream.cutoff, hraw]
    show floorBoundary text raw.offset = raw.offset
    rw [hoffset, htext, floorBoundary_width]
  show Marks text ((Index.ofText text).locate (TokenStream.cutoff text (yamlScanner text))).line _
  rw [hcut]
  exact honset.marks

/-! ## What the rules answer -/

/-- An answer about a document that is no failure and has every violation in its place. -/
def PointsInto (text : Text) (answer : Except Fault (List Violation)) : Prop :=
  ∃ found, answer = .ok found ∧ ∀ v ∈ found, Marks text v.line v.column

theorem pointsInto_option {found : Option Violation}
    (h : ∀ v, found = some v → Marks text v.line v.column) : PointsInto text (.ok found.toList) :=
  ⟨found.toList, rfl, fun v hv => h v (Option.mem_toList.mp hv)⟩

/-- A rule that answers every question about every document, and points into it. -/
def Rule.PointsInto (rule : Rule) : Prop :=
  ∀ text options, ∀ stream : Option TokenStream,
    (∀ tokens, stream = some tokens → tokens = TokenStream.segment yamlScanner text) →
    ∀ answer ∈ answers text stream rule options, YamlStyle.PointsInto text answer.2

theorem pointsInto_of_line {rule : Rule} {check : RuleOptions → Line → Option Violation}
    (hbuild : ∀ options, rule.build options = .ok (.line fun _ l => .ok (check options l).toList))
    (hcheck : ∀ options text l v, l ∈ lines text → check options l = some v →
      Marks text v.line v.column) : rule.PointsInto := by
  intro text options stream _ answer hanswer
  rw [answers, hbuild] at hanswer
  obtain ⟨view, hview, rfl⟩ := List.mem_map.mp hanswer
  refine pointsInto_option fun v hv => ?_
  exact hcheck options text view.2 v (mem_of_mem_lineViews hview) hv

theorem pointsInto_of_token {rule : Rule} {check : RuleOptions → Window → Option Violation}
    (hbuild : ∀ options, rule.build options = .ok (.token fun w => .ok (check options w).toList))
    (hcheck : ∀ options text w v, w.current ∈ (TokenStream.segment yamlScanner text).tokens →
      check options w = some v → Marks text v.line v.column) : rule.PointsInto := by
  intro text options stream hstream answer hanswer
  rw [answers, hbuild] at hanswer
  cases stream with
  | none => exact absurd hanswer List.not_mem_nil
  | some tokens =>
    obtain rfl := hstream tokens rfl
    obtain ⟨w, hw, rfl⟩ := List.mem_map.mp hanswer
    refine pointsInto_option fun v hv => ?_
    exact hcheck options text w v (current_mem_of_mem_tokenViews hw) hv

theorem EmptyLines.marks_check {limits : Limits} {l : Line} (hl : l ∈ lines text) {v : Violation}
    (h : check limits l = some v) : Marks text v.line v.column := by
  simp only [check, Option.ite_none_right_eq_some, Option.ite_none_left_eq_some] at h
  obtain ⟨-, -, -, hv⟩ := h
  obtain rfl := Option.some.inj hv
  exact marks_line hl (Nat.le_refl 1) (Nat.le_add_left 1 _)

theorem TrailingSpaces.marks_check {l : Line} (hl : l ∈ lines text) {v : Violation}
    (h : check l = some v) : Marks text v.line v.column := by
  simp only [check, Option.ite_none_left_eq_some] at h
  obtain ⟨-, hv⟩ := h
  obtain rfl := Option.some.inj hv
  exact marks_line hl (Nat.le_add_left 1 _) (Nat.succ_le_succ (length_stripBlanks_le l.content))

/-- The tokens a stream adds do not lack a marker. -/
theorem DocumentStart.not_isPseudo_of_lacksMarker {w : Window} (h : lacksMarker w = true) :
    w.current.kind.isPseudo = false := by
  have hexempt : isExempt w.current.kind = false := by
    simpa using (Bool.and_eq_true _ _ |>.mp h).1
  cases hkind : w.current.kind <;> simp_all [isExempt, TokenKind.isPseudo]

theorem DocumentStart.marks_check {present : Bool} {w : Window}
    (hw : w.current ∈ (TokenStream.segment yamlScanner text).tokens) {v : Violation}
    (h : check present w = some v) : Marks text v.line v.column := by
  unfold check at h
  dsimp only at h
  split at h
  · split at h
    · rename_i hlacks
      obtain rfl := Option.some.inj h
      exact (marks_start hw (not_isPseudo_of_lacksMarker hlacks)).first
    · exact absurd h (by simp)
  · split at h
    · rename_i hkind
      obtain rfl := Option.some.inj h
      exact marks_start hw (by rw [hkind]; rfl)
    · exact absurd h (by simp)

theorem pointsInto_of_mem_standardCatalog {rule : Rule} (h : rule ∈ standardCatalog) :
    rule.PointsInto := by
  simp only [standardCatalog, List.mem_cons, List.not_mem_nil, or_false] at h
  rcases h with rfl | rfl | rfl
  · exact pointsInto_of_token (fun _ => rfl) fun _ _ _ _ hw hv => DocumentStart.marks_check hw hv
  · exact pointsInto_of_line (fun _ => rfl) fun _ _ _ _ hl hv => EmptyLines.marks_check hl hv
  · exact pointsInto_of_line (fun _ => rfl) fun _ _ _ _ hl hv => TrailingSpaces.marks_check hl hv

/-! ## What is made of the answers -/

theorem failure?_eq_none {answers : List Answer} (h : ∀ answer ∈ answers, PointsInto text answer.2) :
    failure? answers = none := by
  rw [failure?, List.findSome?_eq_none_iff]
  intro answer hanswer
  obtain ⟨found, hfound, -⟩ := h answer hanswer
  obtain ⟨place, found'⟩ := answer
  obtain rfl : found' = .ok found := hfound
  rfl

theorem marks_of_mem_violations {answers : List Answer}
    (h : ∀ answer ∈ answers, PointsInto text answer.2) {v : Violation} (hv : v ∈ violations answers) :
    Marks text v.line v.column := by
  obtain ⟨answer, hanswer, hv⟩ := List.mem_flatMap.mp hv
  obtain ⟨found, hfound, hmarks⟩ := h answer ((List.takeWhile_prefix _).subset hanswer)
  rw [hfound] at hv
  exact hmarks v hv

theorem Rule.PointsInto.marks_runRule {rule : Rule} (h : rule.PointsInto) {options : RuleOptions}
    {stream : Option TokenStream}
    (hstream : ∀ tokens, stream = some tokens → tokens = TokenStream.segment yamlScanner text)
    {p : Problem} (hp : p ∈ runRule text stream rule options) :
    p.rule = rule.id ∧ Marks text p.line p.column := by
  have hanswers := h text options stream hstream
  rw [runRule_eq, failure?_eq_none hanswers] at hp
  rcases List.mem_append.mp hp with hp | hp
  · obtain ⟨v, hv, rfl⟩ := List.mem_map.mp hp
    exact ⟨rfl, marks_of_mem_violations hanswers hv⟩
  · exact absurd hp (by simp)

namespace Linter

variable {linter : Linter}

theorem eq_segment_of_stream? (htokenizer : linter.tokenizer = yamlScanner) {tokens : TokenStream}
    (h : linter.stream? text = some tokens) : tokens = TokenStream.segment yamlScanner text := by
  rw [stream?, htokenizer] at h
  split at h
  · exact (Option.some.inj h).symm
  · exact absurd h (by simp)

theorem mem_lint_iff {p : Problem} : p ∈ linter.lint text ↔
    p ∈ linter.findings text (linter.stream? text) ∧
      (linter.suppressions (linter.stream? text)).isSuppressed p.rule p.line = false := by
  rw [lint, report, Problem.sort, List.mem_mergeSort, List.mem_filter, Bool.not_eq_true']

/-- **Every problem is in the document**, and none of them is the failure of a rule. -/
theorem lint_marks {settings : Settings} (h : ofSettings settings = .ok linter) (text : Text) :
    ∀ p ∈ linter.lint text, p.rule ≠ Problem.internalRule ∧ Marks text p.line p.column := by
  obtain ⟨htokenizer, hrules⟩ := of_ofSettings h
  have hstream : ∀ tokens, linter.stream? text = some tokens →
      tokens = TokenStream.segment yamlScanner text :=
    fun tokens htokens => eq_segment_of_stream? htokenizer htokens
  intro p hp
  rcases List.mem_append.mp (mem_lint_iff.mp hp).1 with hrule | hfault
  · obtain ⟨⟨rule, options⟩, hentry, hp⟩ := List.mem_flatMap.mp hrule
    have hcatalog : rule ∈ standardCatalog := hrules _ hentry
    obtain ⟨hname, hmarks⟩ :=
      (pointsInto_of_mem_standardCatalog hcatalog).marks_runRule hstream hp
    refine ⟨?_, hmarks⟩
    rw [hname]
    exact (wellFormed_standardCatalog.unreserved rule hcatalog).2
  · -- The fault of the document goes by its own name.
    obtain ⟨e, he, rfl⟩ := Option.map_eq_some_iff.mp (Option.mem_toList.mp hfault)
    obtain ⟨tokens, htokens, herror⟩ := Option.bind_eq_some_iff.mp he
    obtain rfl := hstream tokens htokens
    have hname : Problem.syntaxRule ≠ Problem.internalRule := by decide
    exact ⟨hname, marks_error herror⟩

/-- A document that goes on behind a line ending, as far as its open collection is concerned. -/
def unfinished : Text := "\na: [b \n\n".toList

theorem lint_marks_unfinished :
    ∃ linter, ofSettings [("document-start", .toggle true)] = .ok linter ∧
      SyntaxFault.toProblem ⟨⟨2, 4⟩, .unclosed .square⟩ ∈ linter.lint unfinished ∧
      ∀ p ∈ linter.lint unfinished,
        p.rule ≠ Problem.internalRule ∧ Marks unfinished p.line p.column := by
  have hsettings : ofSettings [("document-start", .toggle true)] =
      .ok ⟨.select standardCatalog [("document-start", some DocumentStart.rule.defaultOptions)],
        yamlScanner⟩ := rfl
  have hmarker : ¬ marker <:+: unfinished := by
    rw [← occursIn_iff]
    decide
  have herror : (TokenStream.segment yamlScanner unfinished).error =
      some ⟨⟨2, 4⟩, .unclosed .square⟩ := by cbv
  refine ⟨_, hsettings, mem_lint_iff.mpr ⟨List.mem_append_right _ ?_, ?_⟩, lint_marks hsettings _⟩
  · show _ ∈ ((TokenStream.segment yamlScanner unfinished).error.map SyntaxFault.toProblem).toList
    rw [herror]
    exact List.mem_singleton_self _
  · rw [suppressions_stream?, Suppressions.collect_of_no_marker hmarker]
    exact Suppressions.isSuppressed_nothing _ _

end Linter

end YamlStyle
