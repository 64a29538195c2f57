import YamlStyle.Value.Yaml.Cursor

/-!
# Block scalars

A literal or a folded scalar begins behind a bar or an angle bracket and goes on for as long as lines
are indented deep enough. How deep that is may be said in its header; otherwise the deepest of the
lines without text and the first line with text decide. In a folded scalar the end of a line counts
for a space between two lines that begin with text.
-/

set_option autoImplicit false

namespace YamlStyle

namespace Yaml

namespace Block

/-- What happens to the line ends behind the last line of text. -/
inductive Chomping where
  /-- All are dropped. -/
  | strip
  /-- The first is kept. -/
  | clip
  /-- All are kept. -/
  | keep
  deriving DecidableEq, Repr

/-- What the header of a block scalar says. An indentation of zero is not given. -/
structure Header where
  chomping : Chomping := .clip
  indentation : Nat := 0
  deriving Repr

/-- The chomping that a header begins with. -/
def chomping? : Text → Option Chomping
  | '+' :: _ => some .keep
  | '-' :: _ => some .strip
  | _ => none

/-- The indentation that a header begins with. -/
def indentation? : Text → Option Nat
  | [] => none
  | c :: _ => if c.isDigit then some (digitValue c) else none

/-- The header, from behind the indicator. Its two parts come in either order, and the indentation must
not be zero. -/
def header? (cursor : Cursor) : Option (Header × Cursor) :=
  let second := cursor.rest.drop 1
  match chomping? cursor.rest, indentation? cursor.rest with
  | some chomping, _ =>
    match indentation? second with
    | some 0 => none
    | some n => (cursor.advance 2).skipRestOfLine?.map (⟨chomping, n⟩, ·)
    | none => (cursor.advance 1).skipRestOfLine?.map (⟨chomping, 0⟩, ·)
  | none, some 0 => none
  | none, some n =>
    match chomping? second with
    | some chomping => (cursor.advance 2).skipRestOfLine?.map (⟨chomping, n⟩, ·)
    | none => (cursor.advance 1).skipRestOfLine?.map (⟨.clip, n⟩, ·)
  | none, none => cursor.skipRestOfLine?.map ({}, ·)

/-- Pass over the spaces that indent a line: all of them as long as `indent` is zero, and else those in
front of the column `indent`. A tab must not stand among them. -/
def skipIndent? (indent : Nat) (cursor : Cursor) : Option Cursor :=
  let spaces := leadingSpaces cursor.rest
  let next := cursor.advance (if indent = 0 then spaces else min spaces (indent - cursor.column))
  if startsWithAny "\t" next.rest && (indent == 0 || decide (next.column < indent)) then none
  else some next

/-- Pass over lines without text, up to a line with text and over its indentation. The line ends are
returned, with the greatest column at which a line began or ended. -/
def blankLines? (indent : Nat) : Nat → Nat → Cursor → Option (Text × Nat × Cursor)
  | 0, _, _ => none
  | fuel + 1, greatest, cursor => do
    let cursor ← skipIndent? indent cursor
    let greatest := max greatest cursor.column
    match cursor.lineEnd? with
    | none => some ([], greatest, cursor)
    | some (c, next) =>
      let (ends, greatest, cursor) ← blankLines? indent fuel greatest next
      some (c :: ends, greatest, cursor)

/-- A line of text with what follows it: the end of the line, and the ends of the lines without text
behind it. -/
structure Line where
  text : Text
  lineEnd : Option Char
  blankEnds : Text

/-- Whether a line begins with a blank, which keeps it from being folded. -/
def Line.isIndented (line : Line) : Bool := startsWithAny " \t" line.text

/-- Read the lines of text that begin at the column `indent`. -/
def lines? (indent : Nat) : Nat → Cursor → Option (List Line × Cursor)
  | 0, _ => none
  | fuel + 1, cursor =>
    if cursor.column ≠ indent ∨ cursor.rest.isEmpty then some ([], cursor)
    else do
      let text := cursor.rest.takeWhile (!isLineEnd ·)
      let cursor := cursor.advance text.length
      let (ends, _, next) ← blankLines? indent fuel 0 cursor.skipLineEnd
      let (more, last) ← lines? indent fuel next
      some (⟨text, cursor.lineEnd?.map (·.1), ends⟩ :: more, last)

/-- What stands between two lines. -/
def between (isFolded : Bool) (line next : Line) : Text :=
  if isFolded && line.lineEnd == some '\n' && !line.isIndented && !next.isIndented then
    if line.blankEnds.isEmpty then [' '] else line.blankEnds
  else line.lineEnd.toList ++ line.blankEnds

/-- What the last line ends in. -/
def tail (chomping : Chomping) (line : Line) : Text :=
  match chomping with
  | .strip => []
  | .clip => line.lineEnd.toList
  | .keep => line.lineEnd.toList ++ line.blankEnds

/-- The text of lines. -/
def join (isFolded : Bool) (chomping : Chomping) : List Line → Text
  | [] => []
  | [line] => line.text ++ tail chomping line
  | line :: next :: rest =>
    line.text ++ between isFolded line next ++ join isFolded chomping (next :: rest)

/-- Read a block scalar from its indicator on. `least` is the least column at which its text may
begin. The fuel has to be more than the number of characters that are left. -/
def scalar? (isFolded : Bool) (least fuel : Nat) (cursor : Cursor) : Option (Text × Cursor) := do
  let (header, cursor) ← header? (cursor.advance 1)
  let given := if header.indentation = 0 then 0 else least - 1 + header.indentation
  let (ends, greatest, cursor) ← blankLines? given fuel 0 cursor
  let indent := if given = 0 then max 1 (max least greatest) else given
  let (lines, cursor) ← lines? indent fuel cursor
  let text := join isFolded header.chomping lines
  let leading := if lines.isEmpty && header.chomping ≠ .keep then [] else ends
  some (leading ++ text, cursor)

end Block

end Yaml

end YamlStyle
