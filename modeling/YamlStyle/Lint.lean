import YamlStyle.Rule.Catalog
import YamlStyle.Rule.Resolve
import YamlStyle.Suppression
import YamlStyle.Token.Scanner

/-!
# Linting

A linter is a choice of rules and a tokenizer. Linting a document runs every rule over it to the end,
takes away what the directives in the document silence, and sorts what is left.

Rules always run in full; a directive never reaches them. Nor does a rule reach another: a rule that
fails has its failure reported in its place and says no more, and the others run as if nothing had
happened.

Tokens are only made when someone needs them: a rule that inspects tokens, or a document in which the
marker of directives occurs. A structural fault is reported when there are tokens, and only then.
-/

set_option autoImplicit false

namespace YamlStyle

/-- The problem that the failure of a rule is. -/
def Fault.toProblem (rule : String) (place : Position) (fault : Fault) : Problem :=
  ⟨place.line, place.column, s!"rule {rule} failed: {fault.reason}", Problem.internalRule, .error⟩

/-- The problem that a structural fault is. -/
def SyntaxFault.toProblem (e : SyntaxFault) : Problem :=
  ⟨e.position.line, e.position.column, "syntax error: " ++ e.fault.message, Problem.syntaxRule,
    .error⟩

/-- Check things in order, up to the first failure. -/
def sweep {α : Type} (rule : String) (level : Level) (place : α → Position)
    (check : α → Except Fault (List Violation)) : List α → List Problem
  | [] => []
  | a :: rest =>
    match check a with
    | .ok found => found.map (Problem.ofViolation rule level) ++ sweep rule level place check rest
    | .error fault => [fault.toProblem rule (place a)]

/-- Every line together with the lines above it, the nearest first. -/
def withHistory (above : List Line) : List Line → List (List Line × Line)
  | [] => []
  | line :: rest => (above, line) :: withHistory (line :: above) rest

/-- Everything one rule finds in a document. A rule that inspects tokens finds nothing where there
are none. -/
def runRule (text : Text) (stream : Option TokenStream) (rule : Rule) (options : RuleOptions) :
    List Problem :=
  match rule.build options with
  | .error fault => [fault.toProblem rule.id ⟨1, 1⟩]
  | .ok (.line check) =>
    sweep rule.id options.level (fun view => ⟨view.2.number, 1⟩) (fun view => check view.1 view.2)
      (withHistory [] (lines text))
  | .ok (.token check) =>
    match stream with
    | some stream =>
      sweep rule.id options.level (fun w => w.current.start) check (Window.all stream.tokens)
    | none => []

/-- A choice of rules and a tokenizer. -/
structure Linter where
  config : Resolved
  tokenizer : Tokenizer := yamlScanner

namespace Linter

/-- The linter with the rules that are enabled by default. -/
def standard : Linter := { config := Resolved.defaults standardCatalog }

/-- The linter that settings ask for. -/
def ofSettings (settings : Settings) : Except SettingsError Linter :=
  (Resolved.resolve standardCatalog settings).map fun config => { config }

/-- The tokens of a document, if someone needs them. -/
def stream? (linter : Linter) (text : Text) : Option TokenStream :=
  if linter.config.needsTokens || occursIn marker text then
    some (TokenStream.segment linter.tokenizer text)
  else none

/-- Everything there is to report, before directives have their say. -/
def findings (linter : Linter) (text : Text) (stream : Option TokenStream) : List Problem :=
  (linter.config.rules.flatMap fun (rule, options) => runRule text stream rule options)
    ++ ((stream.bind (·.error)).map SyntaxFault.toProblem).toList

/-- What the directives of a document silence. -/
def suppressions (linter : Linter) (stream : Option TokenStream) : Suppressions :=
  match stream with
  | some stream => Suppressions.collect linter.config.known stream.tokens
  | none => Suppressions.nothing

/-- The problems that are not silenced, in order. -/
def report (linter : Linter) (text : Text) (stream : Option TokenStream) : List Problem :=
  let silenced := linter.suppressions stream
  Problem.sort ((linter.findings text stream).filter fun p => !silenced.isSuppressed p.rule p.line)

/-- Lint a document. -/
def lint (linter : Linter) (text : Text) : List Problem :=
  linter.report text (linter.stream? text)

end Linter

end YamlStyle
