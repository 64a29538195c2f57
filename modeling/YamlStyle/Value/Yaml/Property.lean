import YamlStyle.Value.Yaml.Cursor
import YamlStyle.Value.Yaml.Lexeme

/-!
# Anchors, aliases, tags and directives

All of these are names behind an indicator. A tag is a handle between exclamation marks and a suffix,
or stands in angle brackets. Bytes that are written in hexadecimal behind a percent sign have to be
UTF-8 by their length; each is kept as the character of the same number, since nothing but the ASCII
characters of a tag is ever looked at.
-/

set_option autoImplicit false

namespace YamlStyle

namespace Yaml

/-! ## Anchors and aliases -/

/-- The name of an anchor or an alias, from its indicator on. -/
def anchorName? (cursor : Cursor) : Option (Text × Cursor) :=
  let cursor := cursor.advance 1
  let name := cursor.rest.takeWhile isNameChar
  let next := cursor.advance name.length
  if name.isEmpty then none
  else if isSeparated next.rest || startsWithAny "?:,]\x7d%@`" next.rest then some (name, next)
  else none

/-! ## Tags -/

/-- The number of bytes of a character whose UTF-8 encoding begins with this byte. -/
def encodedLength? (byte : Nat) : Option Nat :=
  if byte < 0x80 then some 1
  else if 0xC0 ≤ byte ∧ byte < 0xE0 then some 2
  else if 0xE0 ≤ byte ∧ byte < 0xF0 then some 3
  else if 0xF0 ≤ byte ∧ byte < 0xF8 then some 4
  else none

/-- A byte in hexadecimal behind a percent sign. -/
def percentByte? : Text → Option (Nat × Text)
  | '%' :: a :: b :: rest => do some (16 * (← hexValue? a) + (← hexValue? b), rest)
  | _ => none

/-- Bytes that go on with a character. -/
def trailingBytes? : Nat → Text → Option Text
  | 0, _ => some []
  | count + 1, text => do
    let (byte, rest) ← percentByte? text
    if 0x80 ≤ byte ∧ byte < 0xC0 then (trailingBytes? count rest).map (Char.ofNat byte :: ·) else none

/-- The bytes of one character. -/
def percentEncoded? (text : Text) : Option Text := do
  let (byte, rest) ← percentByte? text
  let length ← encodedLength? byte
  (trailingBytes? (length - 1) rest).map (Char.ofNat byte :: ·)

/-- Whether a character may stand in a tag. Within angle brackets and in a directive there are a few
more. -/
def isTagChar (isVerbatim : Bool) (c : Char) : Bool :=
  isNameChar c || ";/?:@&=+$.%!~*'()".toList.contains c || (isVerbatim && ",[]".toList.contains c)

/-- Read the characters of a tag. `acc` is what has been read, last character first. -/
def tagChars? (isVerbatim : Bool) (acc : Text) : Nat → Cursor → Option (Text × Cursor)
  | 0, _ => none
  | fuel + 1, cursor =>
    match cursor.rest with
    | [] => some (acc.reverse, cursor)
    | c :: _ =>
      if c == '%' then
        (percentEncoded? cursor.rest).bind fun bytes =>
          tagChars? isVerbatim (bytes.reverse ++ acc) fuel (cursor.advance (3 * bytes.length))
      else if isTagChar isVerbatim c then tagChars? isVerbatim (c :: acc) fuel (cursor.advance 1)
      else some (acc.reverse, cursor)

/-- The suffix of a tag. Something has to be there. -/
def tagSuffix? (isVerbatim : Bool) (fuel : Nat) (cursor : Cursor) : Option (Text × Cursor) :=
  match tagChars? isVerbatim [] fuel cursor with
  | some ([], _) => none
  | found => found

/-- The handle of a tag: an exclamation mark, a name, and perhaps another exclamation mark. -/
def tagHandle? (cursor : Cursor) : Option (Text × Cursor) :=
  match cursor.rest with
  | '!' :: rest =>
    let name := rest.takeWhile isNameChar
    let close := if startsWithAny "!" (rest.drop name.length) then ['!'] else []
    let handle := '!' :: name ++ close
    some (handle, cursor.advance handle.length)
  | _ => none

/-- Whether a handle is closed by an exclamation mark of its own. -/
def isClosedHandle (handle : Text) : Bool :=
  decide (2 ≤ handle.length) && handle.getLast? == some '!'

/-- A tag in angle brackets. -/
def verbatimTag? (fuel : Nat) (cursor : Cursor) : Option (Lexeme × Cursor) := do
  let (suffix, cursor) ← tagSuffix? true fuel (cursor.advance 2)
  match cursor.rest with
  | '>' :: _ => some (.tag [] suffix, cursor.advance 1)
  | _ => none

/-- A tag with a handle. What looks like a handle and is not closed is the beginning of a suffix, and
an exclamation mark alone is a tag of its own. -/
def shorthandTag? (fuel : Nat) (cursor : Cursor) : Option (Lexeme × Cursor) := do
  let (handle, cursor) ← tagHandle? cursor
  if isClosedHandle handle then
    let (suffix, cursor) ← tagSuffix? false fuel cursor
    some (.tag handle suffix, cursor)
  else
    let (suffix, cursor) ← tagChars? false (handle.drop 1).reverse fuel cursor
    if suffix.isEmpty then some (.tag [] ['!'], cursor) else some (.tag ['!'] suffix, cursor)

/-- A tag. In a flow collection a comma may stand right behind it. The fuel has to be more than the
number of characters that are left. -/
def tag? (inFlow : Bool) (fuel : Nat) (cursor : Cursor) : Option (Lexeme × Cursor) := do
  let (lexeme, next) ←
    if startsWithAny "<" (cursor.rest.drop 1) then verbatimTag? fuel cursor
    else shorthandTag? fuel cursor
  if isSeparated next.rest || (inFlow && startsWithAny "," next.rest) then some (lexeme, next)
  else none

/-! ## Directives -/

/-- A number in a version. It has at most nine digits. -/
def versionNumber? (cursor : Cursor) : Option (Nat × Cursor) :=
  let ds := cursor.rest.takeWhile Char.isDigit
  if ds.isEmpty || decide (9 < ds.length) then none
  else some (decimalValue ds, cursor.advance ds.length)

/-- A version: two numbers with a point between them. -/
def versionDirective? (cursor : Cursor) : Option (Lexeme × Cursor) := do
  let (major, cursor) ← versionNumber? (cursor.skipWhile isBlank)
  match cursor.rest with
  | '.' :: _ =>
    let (minor, cursor) ← versionNumber? (cursor.advance 1)
    some (.version major minor, cursor)
  | _ => none

/-- The handle of a tag, and what it stands for. -/
def handleDirective? (fuel : Nat) (cursor : Cursor) : Option (Lexeme × Cursor) := do
  let (handle, cursor) ← tagHandle? (cursor.skipWhile isBlank)
  if !(isClosedHandle handle || handle == ['!']) || !startsWithAny " \t" cursor.rest then none
  else
    let (expansion, cursor) ← tagSuffix? true fuel (cursor.skipWhile isBlank)
    if isSeparated cursor.rest then some (.handle handle expansion, cursor) else none

/-- A directive, from its percent sign on to the next line. The fuel has to be more than the number of
characters that are left. -/
def directive? (fuel : Nat) (cursor : Cursor) : Option (Lexeme × Cursor) := do
  let cursor := cursor.advance 1
  let name := cursor.rest.takeWhile isNameChar
  let cursor := cursor.advance name.length
  if !isSeparated cursor.rest then none
  else
    let (lexeme, cursor) ←
      if name == "YAML".toList then versionDirective? cursor
      else if name == "TAG".toList then handleDirective? fuel cursor
      else none
    some (lexeme, ← cursor.skipRestOfLine?)

end Yaml

end YamlStyle
