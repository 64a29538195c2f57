import YamlStyle.Rule

/-!
# The rule `trailing-spaces`

No line may end in a space or a tab. The report points at the first character of the blanks at the
end of the line.
-/

set_option autoImplicit false

namespace YamlStyle

namespace TrailingSpaces

/-- The violation of a line that ends in blanks. -/
def check (line : Line) : Option Violation :=
  let stripped := stripBlanks line.content
  if stripped.length = line.content.length then none
  else some ⟨line.number, stripped.length + 1, "trailing spaces"⟩

/-- The rule. -/
def rule : Rule where
  id := "trailing-spaces"
  description := "forbid trailing whitespace"
  granularity := .line
  enabledByDefault := true
  options := []
  build _ := .ok (.line fun _ line => .ok (check line).toList)

end TrailingSpaces

end YamlStyle
