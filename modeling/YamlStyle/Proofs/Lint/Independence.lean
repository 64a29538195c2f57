import YamlStyle.Proofs.Lint.Tokens

/-!
# Rules do not reach each other

What a rule reports about a document depends on the document, on the options of the rule and on the
names of the rules in the catalog, which directives may refer to. It does not depend on which other
rules run, on what they find, or on whether they fail.

Other rules have three ways to make a difference: they may have tokens made, which brings directives
and the fault of the document with it, they may fail, and their problems are sorted and silenced
together with all others. `filter_lint` cuts all three by giving the problems of a rule in terms that
mention no other rule, and `lint_independent` compares two configurations through it.
-/

set_option autoImplicit false

namespace YamlStyle

variable {text : Text} {tokenizer : Tokenizer}

section Silence

variable {rule : Rule}

/-- Under the name of a rule, nothing comes from another. -/
theorem filter_runRule_of_ne {other : Rule} (hne : other.id ≠ rule.id)
    (hinternal : rule.id ≠ Problem.internalRule) (stream : Option TokenStream)
    (options : RuleOptions) :
    (runRule text stream other options).filter (·.rule == rule.id) = [] := by
  refine List.filter_eq_nil_iff.mpr fun p hp => ?_
  rw [beq_iff_eq]
  rcases rule_of_mem_runRule hp with h | h
  · rw [h]
    exact hne
  · rw [h]
    exact hinternal.symm

theorem flatMap_filter_runRule_of_ne {others : List (Rule × RuleOptions)}
    (hne : ∀ other ∈ others, other.1.id ≠ rule.id) (hinternal : rule.id ≠ Problem.internalRule)
    (stream : Option TokenStream) :
    (others.flatMap fun other =>
      (runRule text stream other.1 other.2).filter (·.rule == rule.id)) = [] := by
  refine List.flatMap_eq_nil_iff.mpr fun other hother => ?_
  exact filter_runRule_of_ne (hne other hother) hinternal stream other.2

/-- Nor does the fault of the document go by the name of a rule. -/
theorem filter_syntaxFinding (hdocument : rule.id ≠ Problem.syntaxRule)
    (stream : Option TokenStream) :
    (Linter.syntaxFinding stream).toList.filter (·.rule == rule.id) = [] := by
  refine List.filter_eq_nil_iff.mpr fun p hp => ?_
  obtain ⟨e, -, rfl⟩ := Option.map_eq_some_iff.mp (Option.mem_toList.mp hp)
  rw [beq_iff_eq]
  exact hdocument.symm

end Silence

namespace Linter

variable {catalog : Catalog} {config : Resolved} {rule : Rule} {options : RuleOptions}

theorem filter_findings (hcatalog : catalog.WellFormed) (hover : Resolved.Over catalog config)
    (hentry : (rule, options) ∈ config.rules) (stream : Option TokenStream) :
    (findings ⟨config, tokenizer⟩ text stream).filter (·.rule == rule.id) =
      (runRule text stream rule options).filter (·.rule == rule.id) := by
  obtain ⟨hdocument, hinternal⟩ := hcatalog.unreserved rule (hover.mem_catalog hentry)
  obtain ⟨front, back, hsplit⟩ := List.append_of_mem hentry
  -- The rule runs once: those that run before it and those that run after it have other names.
  have hdistinct := hover.pairwise_id_ne hcatalog
  rw [hsplit] at hdistinct
  obtain ⟨-, hback, hfront⟩ := List.pairwise_append.mp hdistinct
  have hbefore : ∀ other ∈ front, other.1.id ≠ rule.id := fun other hother =>
    hfront other hother _ List.mem_cons_self
  have hafter : ∀ other ∈ back, other.1.id ≠ rule.id := fun other hother =>
    ((List.pairwise_cons.mp hback).1 other hother).symm
  have hfault := filter_syntaxFinding hdocument stream
  rw [syntaxFinding] at hfault
  rw [findings, List.filter_append, hfault, List.append_nil, List.filter_flatMap]
  show config.rules.flatMap _ = _
  rw [hsplit, List.flatMap_append, List.flatMap_cons, flatMap_filter_runRule_of_ne hbefore hinternal,
    flatMap_filter_runRule_of_ne hafter hinternal]
  simp

/-- Whatever a truthful rule inspects, it may as well be given the tokens of the document. -/
theorem runRule_stream? (hcatalog : catalog.WellFormed) (hover : Resolved.Over catalog config)
    (hentry : (rule, options) ∈ config.rules) :
    runRule text (stream? ⟨config, tokenizer⟩ text) rule options =
      runRule text (some (TokenStream.segment tokenizer text)) rule options := by
  have htruthful := hcatalog.truthful rule (hover.mem_catalog hentry)
  refine htruthful.runRule_congr (fun htoken => ?_) text options
  have hneeds : config.needsTokens = true := by
    refine List.any_eq_true.mpr ⟨(rule, options), hentry, ?_⟩
    rw [beq_iff_eq]
    exact htoken
  rw [stream?, hneeds]
  rfl

/-- **The problems of one rule**, without a word about the others. -/
theorem filter_lint (hcatalog : catalog.WellFormed) (hover : Resolved.Over catalog config)
    (hentry : (rule, options) ∈ config.rules) (tokenizer : Tokenizer) (text : Text) :
    (lint ⟨config, tokenizer⟩ text).filter (·.rule == rule.id) =
      Problem.sort (audible
        (Suppressions.collect catalog.ids (TokenStream.segment tokenizer text).tokens)
        ((runRule text (some (TokenStream.segment tokenizer text)) rule options).filter
          (·.rule == rule.id))) := by
  -- What is silenced depends on the catalog and the document only, tokens or none.
  have hsilenced := suppressions_stream? ⟨config, tokenizer⟩ text
  rw [hover.known_eq] at hsilenced
  rw [lint, report, hsilenced, Problem.filter_sort, List.filter_comm,
    filter_findings hcatalog hover hentry, runRule_stream? hcatalog hover hentry]
  rfl

/-- **Rules are independent.** -/
theorem lint_independent :
    standardCatalog.WellFormed ∧
    ∀ {catalog : Catalog}, catalog.WellFormed →
      ∀ {first second : Resolved}, Resolved.Over catalog first → Resolved.Over catalog second →
      ∀ {rule : Rule} {options : RuleOptions},
        (rule, options) ∈ first.rules → (rule, options) ∈ second.rules →
      ∀ (tokenizer : Tokenizer) (text : Text),
        (lint ⟨first, tokenizer⟩ text).filter (·.rule == rule.id) =
          (lint ⟨second, tokenizer⟩ text).filter (·.rule == rule.id) := by
  refine ⟨wellFormed_standardCatalog, ?_⟩
  intro catalog hcatalog first second hfirst hsecond rule options hrule hrule' tokenizer text
  rw [filter_lint hcatalog hfirst hrule, filter_lint hcatalog hsecond hrule']

/-- A document with blanks at the end of lines, a collection that is left open, and no marker. -/
def ragged : Text := "a: 1 \nb: [2\n\n\n\nc: 3  \n".toList

theorem lint_independent_ragged :
    ∃ config, Resolved.resolve standardCatalog [("document-start", .toggle true)] = .ok config ∧
      config.needsTokens = true ∧ (Resolved.defaults standardCatalog).needsTokens = false ∧
      (lint ⟨config, yamlScanner⟩ ragged).filter (·.rule == "trailing-spaces") =
        (lint ⟨Resolved.defaults standardCatalog, yamlScanner⟩ ragged).filter
          (·.rule == "trailing-spaces") := by
  have hresolve : Resolved.resolve standardCatalog [("document-start", .toggle true)] =
      .ok ⟨[(DocumentStart.rule, DocumentStart.rule.defaultOptions),
        (EmptyLines.rule, EmptyLines.rule.defaultOptions),
        (TrailingSpaces.rule, TrailingSpaces.rule.defaultOptions)], standardCatalog.ids⟩ := rfl
  have hdefault : (TrailingSpaces.rule, TrailingSpaces.rule.defaultOptions) ∈
      (Resolved.defaults standardCatalog).rules := .tail _ (.head _)
  refine ⟨_, hresolve, rfl, rfl, ?_⟩
  exact lint_independent.2 lint_independent.1 (.bySettings hresolve) .byDefault
    (.tail _ (.tail _ (.head _))) hdefault yamlScanner ragged

end Linter

end YamlStyle
