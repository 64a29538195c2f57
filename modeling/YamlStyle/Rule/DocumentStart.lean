import YamlStyle.Rule

/-!
# The rule `document-start`

Either every document of a stream has to open with the marker `---`, or none may. In the first case
the report goes to the line of the first token that stands where a marker should have been: right
after the start of the stream, after the end of a document or after a directive, comments and line
breaks aside. In the second case every marker is reported.
-/

set_option autoImplicit false

namespace YamlStyle

namespace DocumentStart

/-- The kinds of token that never lack a marker before them. -/
def isExempt : TokenKind → Bool
  | .comment | .lineBreak | .documentStart | .directive | .streamStart | .streamEnd => true
  | _ => false

/-- The kinds of token after which a document opens. -/
def opensDocument : TokenKind → Bool
  | .streamStart | .documentEnd | .directive => true
  | _ => false

/-- Whether a token stands where a marker should have been. -/
def lacksMarker (w : Window) : Bool :=
  !isExempt w.current.kind
    && (w.previousSignificant?.map fun t => opensDocument t.kind).getD false

/-- The violation of a token. -/
def check (present : Bool) (w : Window) : Option Violation :=
  let start := w.current.start
  if present then
    if lacksMarker w then some ⟨start.line, 1, "missing document start \"---\""⟩ else none
  else if w.current.kind = .documentStart then
    some ⟨start.line, start.column, "found forbidden document start \"---\""⟩
  else none

/-- The rule. -/
def rule : Rule where
  id := "document-start"
  description := "require or forbid the document start marker"
  granularity := .token
  enabledByDefault := false
  options := [⟨"present", .bool, .bool true, "whether documents must start with \"---\""⟩]
  build options :=
    let present := (options.bool? "present").getD true
    .ok (.token fun w => .ok (check present w).toList)

end DocumentStart

end YamlStyle
