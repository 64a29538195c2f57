import YamlStyle.Lint

/-!
# Batches

Many documents under the same settings, each of which may lay settings of its own over them. Settings
that do not fit the catalog fail the documents they apply to and no others.

The linter of the common settings is made once and shared by the documents that have nothing to add.
-/

set_option autoImplicit false

namespace YamlStyle

/-- A document of a batch. -/
structure BatchDocument where
  name : String
  text : Text
  /-- Settings for this document alone. -/
  overrides : Option Settings

/-- What became of a document of a batch. -/
structure BatchOutcome where
  name : String
  result : Except SettingsError (List Problem)

/-- Lint one document of a batch, given the common settings and the linter they lead to. -/
def lintOne (settings : Settings) (base : Except SettingsError Linter) (document : BatchDocument) :
    Except SettingsError (List Problem) :=
  match document.overrides, base with
  | none, .ok linter => .ok (linter.lint document.text)
  | overrides, _ =>
    (Linter.ofSettings (settings.overlay (overrides.getD []))).map (·.lint document.text)

/-- Lint the documents of a batch. -/
def lintBatch (settings : Settings) (documents : List BatchDocument) : List BatchOutcome :=
  let base := Linter.ofSettings settings
  documents.map fun document => ⟨document.name, lintOne settings base document⟩

end YamlStyle
