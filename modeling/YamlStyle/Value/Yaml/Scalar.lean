import YamlStyle.Value.Escaped
import YamlStyle.Value.Yaml.Cursor

/-!
# Scalars over several lines

A plain or a quoted scalar may go on over several lines. Blanks at the end and at the start of a line
are not part of it, and the end of a line is **folded**: it counts for a space if text follows on the
next line, and for one line feed less than there are line ends if lines without text follow.

A plain scalar ends where something begins that it cannot hold: a comment, the colon behind a key, a
document marker, a line that is not indented enough, or an indicator of the flow collection that it
stands in.
-/

set_option autoImplicit false

namespace YamlStyle

namespace Yaml

/-! ## Folding -/

/-- What stands between two words of a scalar. -/
inductive Gap where
  /-- Blanks on one line. -/
  | blanks (text : Text)
  /-- The end of a line, unless it is hidden, and the line ends behind it. -/
  | lines (first : Option Char) (more : Text)
  deriving Repr

namespace Gap

/-- Whether a line ends here. -/
def hasLineEnd : Gap → Bool
  | .blanks _ => false
  | .lines _ _ => true

/-- What a gap counts for. -/
def text : Gap → Text
  | .blanks text => text
  | .lines (some '\n') [] => [' ']
  | .lines (some '\n') more => more
  | .lines (some c) more => c :: more
  | .lines none more => more

/-- Add a blank. Behind the end of a line it is not part of the scalar. -/
def addBlank (c : Char) : Gap → Gap
  | .blanks text => .blanks (text ++ [c])
  | gap => gap

/-- Add the end of a line. -/
def addLineEnd (c : Char) : Gap → Gap
  | .blanks _ => .lines (some c) []
  | .lines first more => .lines first (more ++ [c])

/-- Read on to the next word. On a new line there may be no tab in front of the column `least`. -/
def read? (least : Nat) : Nat → Gap → Cursor → Option (Gap × Cursor)
  | 0, gap, cursor => some (gap, cursor)
  | fuel + 1, gap, cursor =>
    match cursor.lineEnd?, cursor.rest with
    | some (c, next), _ => read? least fuel (gap.addLineEnd c) next
    | none, c :: _ =>
      if c == '\t' && gap.hasLineEnd && decide (cursor.column < least) then none
      else if isBlank c then read? least fuel (gap.addBlank c) (cursor.advance 1)
      else some (gap, cursor)
    | none, [] => some (gap, cursor)

end Gap

/-! ## Plain scalars -/

/-- A word of a plain scalar. In a flow collection a colon may not stand right in front of an
indicator. -/
def word? (inFlow : Bool) : Text → Option Text
  | [] => some []
  | c :: rest =>
    if isGap c then some []
    else if inFlow && c == ':' && startsWithAny ",?[]\x7b\x7d" rest then none
    else if c == ':' && isSeparated rest then some []
    else if inFlow && flowIndicators.toList.contains c then some []
    else (word? inFlow rest).map (c :: ·)

/-- Read a plain scalar word by word. `acc` is what has been read, last character first, and `gap` is
what follows it. Next to the scalar itself there is whether a line has ended behind it. -/
def plainWords? (inFlow : Bool) (least : Nat) :
    Nat → Text → Gap → Cursor → Option (Text × Bool × Cursor)
  | 0, _, _, _ => none
  | fuel + 1, acc, gap, cursor =>
    if cursor.isAtDocumentMarker || startsWithAny "#" cursor.rest then
      some (acc.reverse, gap.hasLineEnd, cursor)
    else
      match word? inFlow cursor.rest with
      | none => none
      | some [] => some (acc.reverse, gap.hasLineEnd, cursor)
      | some word =>
        let acc := word.reverse ++ gap.text.reverse ++ acc
        let cursor := cursor.advance word.length
        match Gap.read? least fuel (.blanks []) cursor with
        | none => none
        | some (gap, next) =>
          if !inFlow && decide (next.column < least) then some (acc.reverse, gap.hasLineEnd, next)
          else plainWords? inFlow least fuel acc gap next

/-- Read a plain scalar. The fuel has to be more than the number of characters that are left. -/
def plain? (inFlow : Bool) (least fuel : Nat) (cursor : Cursor) : Option (Text × Bool × Cursor) :=
  plainWords? inFlow least fuel [] (.blanks []) cursor

/-! ## Quoted scalars -/

/-- The character that a short escape stands for. -/
def shortEscape? : Char → Option Char
  | '0' => some '\x00'
  | 'a' => some '\x07'
  | 'b' => some '\x08'
  | 't' => some '\t'
  | '\t' => some '\t'
  | 'n' => some '\n'
  | 'v' => some '\x0b'
  | 'f' => some '\x0c'
  | 'r' => some '\r'
  | 'e' => some '\x1b'
  | ' ' => some ' '
  | '"' => some '"'
  | '/' => some '/'
  | '\\' => some '\\'
  | 'N' => some '\u0085'
  | '_' => some '\u00a0'
  | 'L' => some '\u2028'
  | 'P' => some '\u2029'
  | _ => none

/-- The escapes of scalars in double quotes. -/
def escapes : EscapeStyle where
  short := shortEscape?
  digits c := if c == 'x' then some 2 else Escaped.longCode? c

/-- The way in which a scalar is quoted. -/
inductive Quote where
  | single
  | double
  deriving DecidableEq, Repr

/-- The character of a quote. -/
def Quote.char : Quote → Char
  | .single => '\''
  | .double => '"'

/-- Read a word of a quoted scalar. In single quotes a quote is written twice; in double quotes there
are escapes, and a backslash hides the end of its line. With the word comes the gap that it ends in. -/
def Quote.word? (quote : Quote) : Nat → Text → Cursor → Option (Text × Gap × Cursor)
  | 0, _, _ => none
  | fuel + 1, acc, cursor =>
    match quote, cursor.rest with
    | _, [] => some (acc, .blanks [], cursor)
    | .single, '\'' :: '\'' :: _ => quote.word? fuel ('\'' :: acc) (cursor.advance 2)
    | .double, '\\' :: rest =>
      match (cursor.advance 1).lineEnd? with
      | some (_, next) => some (acc, .lines none [], next)
      | none =>
        match Escaped.escape? escapes rest with
        | some (d, count) => quote.word? fuel (d :: acc) (cursor.advance (1 + count))
        | none => none
    | _, c :: _ =>
      if c == quote.char || isGap c then some (acc, .blanks [], cursor)
      else quote.word? fuel (c :: acc) (cursor.advance 1)

/-- Read a quoted scalar word by word, up to the closing quote. -/
def Quote.words? (quote : Quote) : Nat → Text → Cursor → Option (Text × Cursor)
  | 0, _, _ => none
  | fuel + 1, acc, cursor =>
    if cursor.isAtDocumentMarker || cursor.rest.isEmpty then none
    else do
      let (acc, gap, cursor) ← quote.word? fuel acc cursor
      if cursor.rest.head? == some quote.char then some (acc.reverse, cursor.advance 1)
      else
        let (gap, cursor) ← Gap.read? 0 fuel gap cursor
        quote.words? fuel (gap.text.reverse ++ acc) cursor

/-- Read a quoted scalar from its opening quote on. The fuel has to be more than the number of
characters that are left. -/
def Quote.scalar? (quote : Quote) (fuel : Nat) (cursor : Cursor) : Option (Text × Cursor) :=
  quote.words? fuel [] (cursor.advance 1)

end Yaml

end YamlStyle
