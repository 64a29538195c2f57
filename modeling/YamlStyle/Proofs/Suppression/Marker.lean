import YamlStyle.Proofs.Token.Segment
import YamlStyle.Proofs.Token.Window
import YamlStyle.Suppression

/-!
# Without the marker there is no directive

Directives are read by a grammar, from the texts of comments. Whether a document can have any is
decided beforehand and without tokens, by a search for the marker. The search looks at the document as
a whole and the grammar at pieces of it, chosen by a tokenizer that nobody trusts, yet the search is
never wrong where it says no (`collect_of_no_marker`): whatever spells a directive has the marker in
it, and the text of a token is a piece of the document.
-/

set_option autoImplicit false

namespace YamlStyle

theorem occursIn_iff {word text : Text} : occursIn word text = true ↔ word <:+: text := by
  induction text with
  | nil => simp [occursIn]
  | cons c text ih =>
    rw [occursIn, Bool.or_eq_true, List.isPrefixOf_iff_prefix, ih, List.infix_cons_iff]

/-- A comment that spells a directive has the marker in it. -/
theorem Directive.marker_infix_of_parse? {comment : Text} {d : Directive}
    (h : parse? comment = some d) : marker <:+: comment := by
  unfold parse? at h
  split at h
  · rename_i rest
    obtain ⟨tail, hliteral, -⟩ := Option.bind_eq_some_iff.mp h
    have hfront : marker <+: skipWhiteSpace rest := by
      rw [literal?] at hliteral
      split at hliteral
      · rename_i hmarker
        exact List.isPrefixOf_iff_prefix.mp hmarker
      · exact absurd hliteral (by simp)
    have hrest : skipWhiteSpace rest <:+ rest := List.dropWhile_suffix _
    exact (hfront.isInfix.trans hrest.isInfix).trans (List.suffix_cons '#' rest).isInfix
  · exact absurd h (by simp)

/-- The text of a token is a piece of the document, whatever the tokenizer. -/
theorem TokenStream.value_infix {tokenizer : Tokenizer} {text : Text} {t : Token}
    (h : t ∈ (segment tokenizer text).tokens) : t.value <:+: text := by
  rw [segment, tokens_ofScan] at h
  obtain ⟨raw, hraw, rfl⟩ := List.mem_map.mp h
  obtain ⟨piece, hspells⟩ := exists_spells_of_mem_framed hraw
  have hvalue : (place text (.ofText text) raw).value = piece := by
    rw [place, hspells.slice?_eq]
    rfl
  obtain ⟨front, back, htext, -, -⟩ := hspells
  exact ⟨front, back, by rw [hvalue, List.append_assoc, ← htext]⟩

namespace Suppressions

theorem step_of_no_directive {w : Window} (h : Directive.parse? w.current.value = none)
    (known : List String) (ledger : Ledger) : step known ledger w = ledger := by
  rw [step, h]
  exact ite_self ledger

theorem foldl_step_of_no_directive {windows : List Window}
    (h : ∀ w ∈ windows, Directive.parse? w.current.value = none) (known : List String)
    (ledger : Ledger) : windows.foldl (step known) ledger = ledger := by
  induction windows with
  | nil => rfl
  | cons w windows ih =>
    rw [List.foldl_cons, step_of_no_directive (h w List.mem_cons_self)]
    exact ih fun v hv => h v (List.mem_cons_of_mem _ hv)

/-- **A document without the marker silences nothing**, whatever a tokenizer makes of it. -/
theorem collect_of_no_marker {text : Text} (h : ¬ marker <:+: text) (tokenizer : Tokenizer)
    (known : List String) :
    collect known (TokenStream.segment tokenizer text).tokens = nothing := by
  have hnone : ∀ w ∈ Window.all (TokenStream.segment tokenizer text).tokens,
      Directive.parse? w.current.value = none := by
    intro w hw
    refine Option.eq_none_iff_forall_ne_some.mpr fun d hd => h ?_
    exact (Directive.marker_infix_of_parse? hd).trans
      (TokenStream.value_infix (Window.current_mem hw))
  rw [collect, foldl_step_of_no_directive hnone]
  rfl

@[simp] theorem isSuppressed_nothing (rule : String) (line : Nat) :
    nothing.isSuppressed rule line = false := by
  simp [isSuppressed, nothing]

end Suppressions

end YamlStyle
