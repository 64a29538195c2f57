import YamlStyle.Value

/-!
# Places in a YAML file

What a character in a YAML file means depends on where it stands: on its column, on whether a line has
ended since some other character, and on how far away that one is. A `Cursor` is the text that is left
together with all of this.

A line ends at a line feed, a carriage return, both together, or one of three characters that Unicode
has for it. The first four count as a line feed wherever a line ending is part of a value; the line
separator and the paragraph separator stay what they are.
-/

set_option autoImplicit false

namespace YamlStyle

namespace Yaml

/-! ## Characters -/

/-- Whether a character may stand in a file at all. -/
def isPrintable (c : Char) : Bool :=
  let n := c.toNat
  c == '\t' || c == '\n' || c == '\r' || (0x20 ≤ n && n ≤ 0x7E) || n == 0x85
    || (0xA0 ≤ n && n ≤ 0xFFFD) || 0x10000 ≤ n

/-- Whether a character ends a line. -/
def isLineEnd (c : Char) : Bool :=
  c == '\n' || c == '\r' || c == '\u0085' || c == '\u2028' || c == '\u2029'

/-- Whether a character is a blank or ends a line. -/
def isGap (c : Char) : Bool := isBlank c || isLineEnd c

/-- Whether a text is empty or begins with a blank or the end of a line. -/
def isSeparated : Text → Bool
  | [] => true
  | c :: _ => isGap c

/-- Whether a text is empty or begins with the end of a line. -/
def isLineDone : Text → Bool
  | [] => true
  | c :: _ => isLineEnd c

/-- Whether a text begins with one of these characters. -/
def startsWithAny (cs : String) : Text → Bool
  | [] => false
  | c :: _ => cs.toList.contains c

/-- The characters of names: of anchors, of directives and of the handles of tags. -/
def isNameChar (c : Char) : Bool := c.isAlphanum || c == '_' || c == '-'

/-- The brackets, braces and commas that make up flow collections. -/
def flowIndicators : String := ",[]\x7b\x7d"

/-! ## Cursors -/

/-- A place in a file: the text that is left, the number of characters and of lines before it, and the
number of characters before it on its line. -/
structure Cursor where
  rest : Text
  index : Nat := 0
  line : Nat := 0
  column : Nat := 0

namespace Cursor

/-- Pass over some characters, none of which ends a line. -/
def advance (cursor : Cursor) (count : Nat) : Cursor where
  rest := cursor.rest.drop count
  index := cursor.index + count
  line := cursor.line
  column := cursor.column + count

/-- Pass over the characters for which a test holds. It must fail for those that end a line. -/
def skipWhile (cursor : Cursor) (test : Char → Bool) : Cursor :=
  cursor.advance (cursor.rest.takeWhile test).length

/-- Go to the start of the next line. -/
def newLine (cursor : Cursor) (width : Nat) : Cursor where
  rest := cursor.rest.drop width
  index := cursor.index + width
  line := cursor.line + 1
  column := 0

/-- Pass over the end of a line, if the cursor is there. It is returned as one character. -/
def lineEnd? (cursor : Cursor) : Option (Char × Cursor) :=
  match cursor.rest with
  | '\r' :: '\n' :: _ => some ('\n', cursor.newLine 2)
  | c :: _ =>
    if c == '\u2028' || c == '\u2029' then some (c, cursor.newLine 1)
    else if isLineEnd c then some ('\n', cursor.newLine 1)
    else none
  | [] => none

/-- Pass over the end of a line, if the cursor is there. -/
def skipLineEnd (cursor : Cursor) : Cursor := (cursor.lineEnd?.map (·.2)).getD cursor

/-- Pass over a comment, if the cursor is at one. -/
def skipComment (cursor : Cursor) : Cursor :=
  match cursor.rest with
  | '#' :: _ => cursor.skipWhile (!isLineEnd ·)
  | _ => cursor

/-- Pass over blanks and a comment to the next line. Nothing else may stand there. -/
def skipRestOfLine? (cursor : Cursor) : Option Cursor :=
  let cursor := (cursor.skipWhile isBlank).skipComment
  if isLineDone cursor.rest then some cursor.skipLineEnd else none

/-- Whether these three characters stand at the start of a line, alone or in front of a blank. -/
def isAtMarker (cursor : Cursor) (mark : Char) : Bool :=
  cursor.column == 0 &&
    match cursor.rest with
    | a :: b :: c :: rest => a == mark && b == mark && c == mark && isSeparated rest
    | _ => false

/-- Whether the cursor is where a document starts or ends. -/
def isAtDocumentMarker (cursor : Cursor) : Bool := cursor.isAtMarker '-' || cursor.isAtMarker '.'

end Cursor

end Yaml

end YamlStyle
