import YamlStyle.Text
import YamlStyle.Text.Invisible

/-!
# Quoted texts

The form in which a text is shown inside a message: between double quotes, with the quote and the
backslash escaped, short escapes for the four best-known control characters, and the code in braces
for every other character that leaves no mark of its own.
-/

set_option autoImplicit false

namespace YamlStyle

namespace Quoted

/-- How a character is shown. -/
def escape (c : Char) : Text :=
  if c == '"' || c == '\\' then ['\\', c]
  else if c == '\n' then ['\\', 'n']
  else if c == '\r' then ['\\', 'r']
  else if c == '\t' then ['\\', 't']
  else if c.toNat == 0 then ['\\', '0']
  else if isInvisible c then ['\\', 'u', '\x7b'] ++ Nat.toDigits 16 c.toNat ++ ['\x7d']
  else [c]

/-- A text in quotes. -/
def render (text : Text) : String := String.ofList ('"' :: text.flatMap escape ++ ['"'])

end Quoted

end YamlStyle
