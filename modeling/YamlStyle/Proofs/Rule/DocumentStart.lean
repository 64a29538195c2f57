import YamlStyle.Lint
import YamlStyle.Proofs.Token.Segment
import YamlStyle.Proofs.Token.Window

/-!
# Which documents lack their marker

The rule `document-start` remembers nothing. It looks back from every token for the last one that
says something, and decides by its kind. One pass over the tokens from front to back that remembers
whether a document is **open** comes to the same violations (`verdict_of_segment`).

The invariant that ties the two together is about the tokens that have gone by: what the backward
search finds is a token after which a document opens exactly when no document is open. It needs the
search to end, so there has to be a stream start at the far end of what has gone by, and no other mark
of the stream in between. A tokenizer that reports no such marks leaves them to the stream.
-/

set_option autoImplicit false

namespace YamlStyle

namespace DocumentStart

/-! ## The pass -/

/-- Whether a document is open behind a token, given whether one was open ahead of it. -/
def next (isOpen : Bool) : TokenKind → Bool
  | .comment | .lineBreak | .streamStart | .streamEnd => isOpen
  | .directive | .documentEnd => false
  | _ => true

/-- Whether a token is to be reported, given whether a document is open ahead of it. -/
def isDue (isOpen : Bool) : TokenKind → Bool
  | .comment | .lineBreak | .streamStart | .streamEnd | .documentStart | .directive => false
  | _ => !isOpen

/-- The violations that one pass over the tokens finds. -/
def pass (isOpen : Bool) : List Token → List Violation
  | [] => []
  | t :: rest =>
    let found := pass (next isOpen t.kind) rest
    if isDue isOpen t.kind then ⟨t.start.line, 1, "missing document start \"---\""⟩ :: found else found

/-- Whether the pass has a document open once the tokens `before`, the nearest first, have gone by. -/
def isOpen (before : List Token) : Bool := before.foldr (fun t bit => next bit t.kind) false

@[simp] theorem isOpen_nil : isOpen [] = false := rfl

@[simp] theorem isOpen_cons (t : Token) (before : List Token) :
    isOpen (t :: before) = next (isOpen before) t.kind := rfl

/-! ## Looking back -/

/-- The tokens `before`, the nearest first, begin with a stream start and hold no other mark of the
stream. -/
inductive Begun : List Token → Prop
  | start {t : Token} (hkind : t.kind = .streamStart) : Begun [t]
  | push {t : Token} {before : List Token}
      (hkind : t.kind ≠ .streamStart ∧ t.kind ≠ .streamEnd) (hbegun : Begun before) :
      Begun (t :: before)

theorem Begun.append {before : List Token} (h : Begun before) {nearer : List Token}
    (hnearer : ∀ t ∈ nearer, t.kind ≠ .streamStart ∧ t.kind ≠ .streamEnd) :
    Begun (nearer ++ before) := by
  induction nearer with
  | nil => exact h
  | cons t nearer ih =>
    apply Begun.push
    · exact hnearer t List.mem_cons_self
    · exact ih fun u hu => hnearer u (List.mem_cons_of_mem _ hu)

/-- The step of the invariant is the push: a comment or a line break is passed over by the search and
ignored by the pass, and at any other token the search stops. -/
theorem Begun.opensDocument_eq {before : List Token} (h : Begun before) :
    ((before.find? Window.isSignificant).map fun t => opensDocument t.kind).getD false =
      !isOpen before := by
  induction h with
  | @start t hkind => simp [Window.isSignificant, opensDocument, next, hkind]
  | @push t before hkind _ ih =>
    by_cases hsignificant : Window.isSignificant t = true
    · rw [List.find?_cons_of_pos hsignificant, isOpen_cons]
      revert hkind hsignificant
      cases hk : t.kind <;> simp [Window.isSignificant, opensDocument, next, hk]
    · rw [List.find?_cons_of_neg hsignificant, isOpen_cons, ih]
      revert hsignificant
      cases hk : t.kind <;> simp [Window.isSignificant, next, hk]

theorem Begun.lacksMarker_eq {w : Window} (h : Begun w.before) :
    lacksMarker w = isDue (isOpen w.before) w.current.kind := by
  rw [lacksMarker, Window.previousSignificant?, h.opensDocument_eq]
  cases w.current.kind <;> rfl

/-! ## The windows of a stream -/

/-- A window around a pseudo token reports nothing either way. Any other one looks back at the tokens of
the tokenizer, at line breaks, and at last at the stream start. -/
theorem lacksMarker_of_window {text : Text} {scan : Scan} {w : Window}
    (hscan : ∀ t ∈ scan.tokens, t.kind ≠ .streamStart ∧ t.kind ≠ .streamEnd)
    (hw : w ∈ Window.all (TokenStream.ofScan text scan).tokens) :
    lacksMarker w = isDue (isOpen w.before) w.current.kind := by
  by_cases hpseudo : w.current.kind.isPseudo = true
  · rw [lacksMarker]
    revert hpseudo
    cases w.current.kind <;> simp [TokenKind.isPseudo, isExempt, isDue]
  · obtain ⟨above, t, below, hbody, -, hbefore⟩ :=
      TokenStream.exists_body_of_window hw (Bool.eq_false_of_not_eq_true hpseudo)
    apply Begun.lacksMarker_eq
    rw [hbefore]
    apply Begun.append (.start rfl)
    intro v hv
    obtain ⟨u, hu, rfl⟩ := List.mem_map.mp hv
    have hmem : u ∈ TokenStream.body text scan :=
      hbody ▸ List.mem_append_left _ (List.mem_reverse.mp hu)
    show u.kind ≠ .streamStart ∧ u.kind ≠ .streamEnd
    by_cases hbreak : u.kind = .lineBreak
    · simp [hbreak]
    · exact hscan u (TokenStream.mem_tokens_of_mem_body hmem hbreak)

/-! ## Runs -/

/-- Each window in turn is judged by the tokens that have gone by, so windows in a row are judged by the
pass. -/
theorem filterMap_check_eq_pass {before tokens : List Token} {here back : List Window}
    (hwindows : Window.allFrom before tokens = here ++ back)
    (hdue : ∀ w ∈ here, lacksMarker w = isDue (isOpen w.before) w.current.kind) :
    here.filterMap (check true) = pass (isOpen before) (here.map (·.current)) := by
  induction here generalizing before tokens with
  | nil => rfl
  | cons w here ih =>
    cases tokens with
    | nil => exact absurd hwindows.symm (List.cons_ne_nil _ _)
    | cons t rest =>
      obtain ⟨rfl, hrest⟩ := List.cons.inj hwindows
      have hfirst := hdue _ List.mem_cons_self
      have hothers := ih hrest fun w hw => hdue w (List.mem_cons_of_mem _ hw)
      rw [List.filterMap_cons, hothers, List.map_cons, pass, isOpen_cons, check, if_pos rfl, hfirst]
      cases isDue (isOpen before) t.kind <;> rfl

theorem exists_allFrom_of_append {before tokens : List Token} {front rest : List Window}
    (h : Window.allFrom before tokens = front ++ rest) :
    ∃ before' tokens', Window.allFrom before' tokens' = rest := by
  induction front generalizing before tokens with
  | nil => exact ⟨before, tokens, h⟩
  | cons w front ih =>
    cases tokens with
    | nil => exact absurd h.symm (List.cons_ne_nil _ _)
    | cons t tokens => exact ih (List.cons.inj h).2

/-- The kinds of token at which a document can begin or end. -/
def isBound : TokenKind → Bool
  | .documentStart | .documentEnd | .directive => true
  | _ => false

/-- Away from the bounds an open document stays open, and nothing is due in it. -/
theorem of_not_isBound {kind : TokenKind} (h : isBound kind = false) :
    next true kind = true ∧ isDue true kind = false := by
  revert h
  cases kind <;> simp [isBound, next, isDue]

/-- Away from the bounds a token that is due opens the document. -/
theorem next_of_isDue {bit : Bool} {kind : TokenKind} (h : isBound kind = false)
    (hdue : isDue bit kind = true) : next bit kind = true := by
  revert h hdue
  cases kind <;> simp [isBound, next, isDue]

theorem pass_true {tokens : List Token} (h : ∀ t ∈ tokens, isBound t.kind = false) :
    pass true tokens = [] := by
  induction tokens with
  | nil => rfl
  | cons t rest ih =>
    obtain ⟨hnext, hdue⟩ := of_not_isBound (h t List.mem_cons_self)
    rw [pass, hnext, hdue]
    exact ih fun u hu => h u (List.mem_cons_of_mem _ hu)

theorem length_pass_le (bit : Bool) {tokens : List Token} (h : ∀ t ∈ tokens, isBound t.kind = false) :
    (pass bit tokens).length ≤ 1 := by
  induction tokens generalizing bit with
  | nil => exact Nat.zero_le _
  | cons t rest ih =>
    have hrest : ∀ u ∈ rest, isBound u.kind = false := fun u hu => h u (List.mem_cons_of_mem _ hu)
    cases hdue : isDue bit t.kind with
    | false =>
      rw [pass, hdue]
      exact ih _ hrest
    | true =>
      rw [pass, hdue, next_of_isDue (h t List.mem_cons_self) hdue, pass_true hrest]
      rfl

/-! ## The theorem -/

theorem filterMap_check_false (before tokens : List Token) :
    (Window.allFrom before tokens).filterMap (check false) =
      (tokens.filter (·.kind == .documentStart)).map fun t =>
        ⟨t.start.line, t.start.column, "found forbidden document start \"---\""⟩ := by
  induction tokens generalizing before with
  | nil => rfl
  | cons t rest ih =>
    rw [Window.allFrom, List.filterMap_cons, ih, List.filter_cons]
    by_cases hkind : t.kind = .documentStart <;> simp [check, hkind]

/-- What the rule finds in a stream is what it says of its windows. -/
theorem runRule_eq_filterMap (text : Text) (stream : TokenStream) (options : RuleOptions) :
    runRule text (some stream) rule options =
      ((Window.all stream.tokens).filterMap (check ((options.bool? "present").getD true))).map
        (Problem.ofViolation rule.id options.level) := by
  show sweep rule.id options.level _ _ (Window.all stream.tokens) = _
  generalize Window.all stream.tokens = windows
  induction windows with
  | nil => rfl
  | cons w windows ih =>
    rw [sweep, List.filterMap_cons]
    simp only [ih]
    cases check ((options.bool? "present").getD true) w <;> rfl

/-- What the rule makes of the documents of a stream. -/
structure Verdict (text : Text) (stream : TokenStream) : Prop where
  /-- Where markers are required, the rule finds what one pass finds that begins with no document
  open. -/
  required : (Window.all stream.tokens).filterMap (check true) = pass false stream.tokens
  /-- Of tokens in a row that are neither markers nor directives, at most one is reported. -/
  once : ∀ front here back, Window.all stream.tokens = front ++ (here ++ back) →
    (∀ w ∈ here, isBound w.current.kind = false) → (here.filterMap (check true)).length ≤ 1
  /-- Where markers are forbidden, the rule finds each of them. -/
  forbidden : (Window.all stream.tokens).filterMap (check false) =
    (stream.tokens.filter (·.kind == .documentStart)).map fun t =>
      ⟨t.start.line, t.start.column, "found forbidden document start \"---\""⟩
  reported : ∀ options, runRule text (some stream) rule options =
    ((Window.all stream.tokens).filterMap (check ((options.bool? "present").getD true))).map
      (Problem.ofViolation rule.id options.level)

/-- **Each document without a marker is reported once**, whatever the tokenizer, as long as it leaves the
marks of the stream alone. -/
theorem verdict_of_segment (tokenizer : Tokenizer) (text : Text)
    (h : ∀ t ∈ (tokenizer text).tokens, t.kind ≠ .streamStart ∧ t.kind ≠ .streamEnd) :
    Verdict text (TokenStream.segment tokenizer text) where
  required := by
    have hpass := filterMap_check_eq_pass
      (List.append_nil (Window.all (TokenStream.segment tokenizer text).tokens)).symm
      fun w hw => lacksMarker_of_window h hw
    rwa [Window.map_current_all] at hpass
  once front here back hwindows hhere := by
    obtain ⟨before, tokens, hrest⟩ := exists_allFrom_of_append hwindows
    have hdue : ∀ w ∈ here, lacksMarker w = isDue (isOpen w.before) w.current.kind := by
      intro w hw
      apply lacksMarker_of_window h
      show w ∈ Window.all (TokenStream.segment tokenizer text).tokens
      rw [hwindows]
      exact List.mem_append_right _ (List.mem_append_left _ hw)
    rw [filterMap_check_eq_pass hrest hdue]
    apply length_pass_le
    intro t ht
    obtain ⟨w, hw, rfl⟩ := List.mem_map.mp ht
    exact hhere w hw
  forbidden := filterMap_check_false [] _
  reported := runRule_eq_filterMap text _

/-- A document that opens with a comment, one that a directive announces, and one that is marked. -/
def severalDocuments : Text := "# a\nb: 'c\n  d'\n...\n%YAML 1.2\ne\n...\n---\nf\n".toList

theorem verdict_of_severalDocuments :
    (yamlScanner severalDocuments).tokens.map (·.kind) =
        [.comment, .scalar, .value, .scalar, .documentEnd, .directive, .scalar, .documentEnd,
          .documentStart, .scalar] ∧
      Verdict severalDocuments (TokenStream.segment yamlScanner severalDocuments) :=
  ⟨by decide +kernel, verdict_of_segment yamlScanner severalDocuments (by decide +kernel)⟩

end DocumentStart

end YamlStyle
