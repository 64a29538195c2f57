import YamlStyle.Rule.DocumentStart
import YamlStyle.Rule.EmptyLines
import YamlStyle.Rule.TrailingSpaces

/-!
# The catalog of the linter

The rules that come with the linter, in the order of their names.
-/

set_option autoImplicit false

namespace YamlStyle

/-- The rules that come with the linter. -/
def standardCatalog : Catalog := [DocumentStart.rule, EmptyLines.rule, TrailingSpaces.rule]

end YamlStyle
