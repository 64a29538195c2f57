import Mathlib.Data.List.Forall2
import YamlStyle.Lint.Batch
import YamlStyle.Proofs.Table.Sorted

/-!
# A batch is its documents, one by one

The linter of the common settings is made once and shared, but only by documents that add no settings
and only if there is such a linter. All others get a linter of their own. Which way a document goes
does not show: `lintBatch_alone` says that every outcome is what the document would get by itself, under
the common settings with its own laid over them.

What **laid over** means is said without the function that does it. `IsOverlay` describes the settings
by what they say about each rule, and settings in order are determined by that.
-/

set_option autoImplicit false

namespace YamlStyle

/-- `merged` says about a rule what `top` says about it, and what `base` says if `top` says nothing. A
rule that `top` mentions takes no option from `base`. -/
structure Settings.IsOverlay (base top merged : Settings) : Prop where
  sorted : merged.Sorted
  answer : ∀ id, merged.get? id = (top.get? id).or (base.get? id)

namespace Settings

variable {base top merged other : Settings}

theorem isOverlay_overlay (hbase : base.Sorted) (htop : top.Sorted) :
    IsOverlay base top (base.overlay top) where
  sorted := hbase.insertAll top
  answer := Table.get?_insertAll htop.nodup base

theorem IsOverlay.unique (h : IsOverlay base top merged) (hother : IsOverlay base top other) :
    merged = other := by
  apply h.sorted.ext hother.sorted
  intro id
  rw [h.answer, hother.answer]

end Settings

/-- Shared or not, the linter of a document is that of the settings laid over each other. -/
theorem lintOne_eq (settings : Settings) (document : BatchDocument) :
    lintOne settings (Linter.ofSettings settings) document =
      (Linter.ofSettings (settings.overlay (document.overrides.getD []))).map
        (·.lint document.text) := by
  obtain ⟨name, text, overrides⟩ := document
  cases overrides with
  | some top => rfl
  | none =>
    cases hbase : Linter.ofSettings settings with
    | error e => rfl
    | ok linter =>
      -- Nothing is laid over, and so the linter of the document alone is the one that is shared.
      show Except.ok (linter.lint text) = (Linter.ofSettings settings).map (·.lint text)
      rw [hbase]
      rfl

/-- The outcome of a document that is linted by itself. -/
structure BatchOutcome.IsAlone (settings : Settings) (document : BatchDocument)
    (outcome : BatchOutcome) : Prop where
  name : outcome.name = document.name
  mergeable : ∃ merged, settings.IsOverlay (document.overrides.getD []) merged
  result : ∀ merged, settings.IsOverlay (document.overrides.getD []) merged →
    outcome.result = (Resolved.resolve standardCatalog merged).map
      fun config => Linter.lint ⟨config, yamlScanner⟩ document.text

theorem isAlone_lintOne {settings : Settings} (hsettings : settings.Sorted)
    {document : BatchDocument} (hdocument : (document.overrides.getD []).Sorted) :
    BatchOutcome.IsAlone settings document
      ⟨document.name, lintOne settings (Linter.ofSettings settings) document⟩ where
  name := rfl
  mergeable := ⟨_, Settings.isOverlay_overlay hsettings hdocument⟩
  result := by
    intro merged hmerged
    obtain rfl := hmerged.unique (Settings.isOverlay_overlay hsettings hdocument)
    rw [lintOne_eq, Linter.ofSettings]
    cases Resolved.resolve standardCatalog (settings.overlay (document.overrides.getD [])) with
    | ok config => rfl
    | error e => rfl

/-- **A batch is its documents linted alone**: one outcome for each, in order, and none of them
depends on what else is in the batch. -/
theorem lintBatch_alone {settings : Settings} (hsettings : settings.Sorted)
    {documents : List BatchDocument}
    (hdocuments : ∀ document ∈ documents, (document.overrides.getD []).Sorted) :
    List.Forall₂ (BatchOutcome.IsAlone settings) documents (lintBatch settings documents) ∧
      ∀ front document back, documents = front ++ document :: back →
        (lintBatch settings documents)[front.length]? = (lintBatch settings [document])[0]? := by
  refine ⟨?_, ?_⟩
  · rw [lintBatch, List.forall₂_map_right_iff, List.forall₂_same]
    intro document hdocument
    exact isAlone_lintOne hsettings (hdocuments document hdocument)
  · rintro front document back rfl
    simp [lintBatch]

/-- Settings that give a rule an option it does not take. -/
def misfit : Settings := [("trailing-spaces", .options [("strict", .bool true)])]

/-- A document that goes by them, and one that has a word of its own on the rule. -/
def quarrel : List BatchDocument :=
  [⟨"a.yaml", "a: 1 \n".toList, none⟩,
    ⟨"b.yaml", "a: 1 \n".toList, some [("trailing-spaces", .toggle true)]⟩]

theorem lintBatch_alone_quarrel :
    misfit.Sorted ∧ (∀ document ∈ quarrel, (document.overrides.getD []).Sorted) ∧
      (∃ failed mended, lintBatch misfit quarrel = [failed, mended] ∧
        failed.result = .error (.unknownOption "trailing-spaces" "strict") ∧
        mended.result = .ok [⟨1, 5, "trailing spaces", "trailing-spaces", .error⟩]) := by
  have hsettings : misfit.Sorted := by decide
  have hdocuments : ∀ document ∈ quarrel, (document.overrides.getD []).Sorted := by decide
  obtain ⟨houtcomes, -⟩ := lintBatch_alone hsettings hdocuments
  obtain ⟨failed, rest, hfailed, hrest, hbatch⟩ := List.forall₂_cons_left_iff.mp houtcomes
  obtain ⟨mended, others, hmended, hothers, rfl⟩ := List.forall₂_cons_left_iff.mp hrest
  obtain rfl := List.forall₂_nil_left_iff.mp hothers
  refine ⟨hsettings, hdocuments, failed, mended, hbatch, ?_, ?_⟩
  · -- Nothing is laid over, so the settings are what they were, and they do not fit.
    exact hfailed.result misfit ⟨hsettings, fun id => rfl⟩
  · rw [hmended.result [("trailing-spaces", .toggle true)] ⟨by decide, fun id => ?_⟩]
    · decide +kernel
    · simp only [misfit, Table.get?, Option.getD_some]
      split <;> rfl

end YamlStyle
