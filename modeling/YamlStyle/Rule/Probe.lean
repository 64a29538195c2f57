import YamlStyle.Rule.TrailingSpaces

/-!
# Probes

Rules that have nothing to say about style. They exist to try out the engine: a rule that fails while
it is built or in the middle of a document, with or without a word; one that inspects something else
than it declares; one that reports out of order and on lines it is not looking at; one that counts.
The catalog holds one real rule as well, to see that it is not disturbed.
-/

set_option autoImplicit false

namespace YamlStyle

namespace Probe

/-- Reports every token by its kind, and fails at the token that reads `word`. -/
def tokenCheck (options : RuleOptions) : Checker :=
  let word := (options.str? "word").getD "boom"
  let whole := (options.bool? "whole").getD false
  .token fun w =>
    let token := w.current
    if String.ofList token.value = word then .error (.because ("found " ++ word))
    else .ok [⟨token.start.line, if whole then 0 else token.start.column, token.kind.name⟩]

/-- The options of the probes that look at tokens. -/
def tokenOptions : List OptionSpec :=
  [⟨"word", .str, .str "boom", "token to fail at"⟩,
    ⟨"whole", .bool, .bool false, "whether to report whole lines"⟩]

/-- Inspects tokens and says so. -/
def tokens : Rule where
  id := "tokens"
  description := "report every token"
  granularity := .token
  enabledByDefault := false
  options := tokenOptions
  build options := .ok (tokenCheck options)

/-- Inspects tokens and says that it inspects lines. -/
def mislabeled : Rule where
  id := "mislabeled"
  description := "report every token, under the wrong granularity"
  granularity := .line
  enabledByDefault := false
  options := tokenOptions
  build options := .ok (tokenCheck options)

/-- What a failing line probe leaves behind. -/
def payloadFault (payload : String) (line : Nat) : Fault :=
  if payload = "any" then .unexplained
  else if payload = "owned" then .because s!"boom at {line}"
  else .because "boom"

/-- Reports every line, and fails at one of them. -/
def explodes : Rule where
  id := "explodes"
  description := "fail at a line"
  granularity := .line
  enabledByDefault := false
  options :=
    [⟨"at", .int, .int 2, "line to fail at"⟩,
      ⟨"payload", .oneOf ["static", "owned", "any"], .str "static", "what the failure carries"⟩]
  build options :=
    let target := (options.int? "at").getD 2
    let payload := (options.str? "payload").getD "static"
    .ok (.line fun _ line =>
      if (line.number : Int) = target then .error (payloadFault payload line.number)
      else .ok [⟨line.number, 1, "seen"⟩])

/-- Cannot be built. -/
def unbuildable : Rule where
  id := "unbuildable"
  description := "fail while being built"
  granularity := .line
  enabledByDefault := false
  options := []
  build _ := .error (.because "cannot build")

/-- Reports several things for every line, out of order. -/
def multi : Rule where
  id := "multi"
  description := "report several violations for each line"
  granularity := .line
  enabledByDefault := false
  options := []
  build _ := .ok (.line fun _ line =>
    .ok [⟨line.number + 1, 0, "next"⟩, ⟨line.number, 3, "c"⟩, ⟨line.number, 0, "whole"⟩,
      ⟨line.number, 3, "a"⟩])

/-- Counts the lines of a document and reports every so-manieth. -/
def counter : Rule where
  id := "counter"
  description := "count lines"
  granularity := .line
  enabledByDefault := true
  options := [⟨"every", .int, .int 2, "how many lines to count between reports"⟩]
  build options :=
    let every := (options.int? "every").getD 2
    .ok (.line fun above line =>
      let count := above.length + 1
      if 0 < every ∧ (count : Int) % every = 0 then .ok [⟨line.number, 2, s!"line {count}"⟩]
      else .ok [])

/-- The probes, and one real rule. -/
def catalog : Catalog :=
  [tokens, mislabeled, explodes, unbuildable, multi, counter, TrailingSpaces.rule]

end Probe

end YamlStyle
