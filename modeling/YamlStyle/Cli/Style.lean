/-!
# Styled text

Terminals show text in a style when it stands between two control sequences. A weight is taken back
by the sequence that takes back everything, a colour only by one that takes back colours.
-/

set_option autoImplicit false

namespace YamlStyle

namespace Cli

/-- How a piece of text is shown. -/
inductive Style where
  | bold
  | dimmed
  | underlined
  | red
  | green
  | yellow
  | cyan
  deriving DecidableEq, Repr

namespace Style

/-- The number that begins a style. -/
def code : Style → String
  | .bold => "1"
  | .dimmed => "2"
  | .underlined => "4"
  | .red => "31"
  | .green => "32"
  | .yellow => "33"
  | .cyan => "36"

/-- The number that takes a style back. -/
def reset : Style → String
  | .bold | .dimmed | .underlined => "0"
  | .red | .green | .yellow | .cyan => "39"

/-- The control sequence of a number. -/
def sequence (number : String) : String := "\x1b[" ++ number ++ "m"

/-- Text in a style. -/
def paint (style : Style) (text : String) : String :=
  sequence style.code ++ text ++ sequence style.reset

/-- The style of headings. -/
def heading (text : String) : String := underlined.paint (bold.paint text)

end Style

/-- Text with spaces behind it, up to a width. -/
def padRight (width : Nat) (text : String) : String :=
  text ++ String.ofList (List.replicate (width - text.length) ' ')

/-- Lines, each with its ending. -/
def unlines (lines : List String) : String := String.join (lines.map (· ++ "\n"))

/-- Blocks of lines with an empty line between each two. -/
def separated (blocks : List (List String)) : List String := [""].intercalate blocks

end Cli

end YamlStyle
