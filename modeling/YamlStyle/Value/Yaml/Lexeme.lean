import YamlStyle.Value

/-!
# The lexemes of YAML

Between the characters of a file and its values there is a sequence of lexemes. Some of them are
written: brackets, dashes, scalars. Others only come from the layout: the start of a block collection,
its end, and the mark in front of a key, of which nothing can be seen before the colon behind it.
-/

set_option autoImplicit false

namespace YamlStyle

namespace Yaml

/-- Collections may be nested this deep. -/
def maxDepth : Nat := 128

/-- A lexeme. -/
inductive Lexeme where
  /-- A directive that names a version of YAML. -/
  | version (major minor : Nat)
  /-- A directive that says what the handle of a tag stands for. -/
  | handle (name expansion : Text)
  | documentStart
  | documentEnd
  /-- A block sequence starts. -/
  | blockSequence
  /-- A block mapping starts. -/
  | blockMapping
  /-- The innermost block collection ends. -/
  | blockEnd
  | openBracket
  | closeBracket
  | openBrace
  | closeBrace
  | comma
  /-- An entry of a block sequence. -/
  | dash
  /-- A key follows. -/
  | key
  /-- The value of a key follows. -/
  | colon
  | anchor (name : Text)
  | alias (name : Text)
  /-- A tag: the handle in front, which is empty for a tag that is written out, and the rest. -/
  | tag (handle suffix : Text)
  /-- A scalar, and whether it is written without quotes. -/
  | scalar (isPlain : Bool) (text : Text)
  deriving DecidableEq, Repr

end Yaml

end YamlStyle
