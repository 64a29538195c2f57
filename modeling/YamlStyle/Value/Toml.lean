import YamlStyle.Value.Escaped
import YamlStyle.Value.Toml.Tables
import YamlStyle.Value.Toml.Words

/-!
# TOML

A reader for configuration files in TOML. Keys are bare, quoted or dotted; values are strings on one
line or over several, arrays over any number of lines, inline tables on one line, and words; headers
open tables and add to arrays of tables.

Every function here takes text from the front and returns what is left. A file is refused as a whole:
there is no value for a part of it.
-/

set_option autoImplicit false

namespace YamlStyle

namespace Toml

/-! ## Layout -/

/-- Drop blanks. -/
def skipBlanks (text : Text) : Text := text.dropWhile isBlank

/-- Whether a character may stand in a string or a comment as it is. -/
def isPrintable (c : Char) : Bool := c == '\t' || (0x20 ≤ c.toNat && c.toNat != 0x7F)

/-- Drop a comment. It ends at the first character that may not stand in one. -/
def skipComment : Text → Text
  | '#' :: rest => rest.dropWhile isPrintable
  | rest => rest

/-- Drop a line ending, if there is one. A carriage return alone ends no line. -/
def newline? : Text → Option Text
  | '\n' :: rest => some rest
  | '\r' :: '\n' :: rest => some rest
  | _ => none

/-- Drop what may stand behind the last thing on a line, up to the next line or the end of the file. -/
def lineEnd? (text : Text) : Option Text :=
  match skipComment (skipBlanks text) with
  | [] => some []
  | rest => newline? rest

/-- Drop blanks, line endings and comments. Each round takes something from the text. -/
def skipLayout : Nat → Text → Text
  | 0, text => text
  | fuel + 1, text =>
    let rest := skipComment (skipBlanks text)
    match newline? rest with
    | some rest => skipLayout fuel rest
    | none => rest

/-- Drop blanks and line endings. -/
def skipBlankLines : Text → Text
  | '\r' :: '\n' :: rest => skipBlankLines rest
  | c :: rest => if isBlank c || c == '\n' then skipBlankLines rest else c :: rest
  | [] => []

/-! ## Strings and keys -/

/-- The escapes of strings in double quotes. -/
def escapes : EscapeStyle := ⟨Escaped.commonEscape?, Escaped.longCode?⟩

/-- A string in double quotes, from behind the opening one. -/
def basicString? (text : Text) : Option (String × Text) := Escaped.read? escapes isPrintable text

/-- A string in single quotes, from behind the opening one. Nothing is escaped. -/
def literalString? (text : Text) : Option (String × Text) :=
  match text.dropWhile fun c => isPrintable c && c != '\'' with
  | '\'' :: rest =>
    some (String.ofList (text.takeWhile fun c => isPrintable c && c != '\''), rest)
  | _ => none

/-- Whether a backslash in front of this text hides the end of its line. -/
def hidesLineEnd (text : Text) : Bool := (newline? (skipBlanks text)).isSome

/-- Read a string over several lines up to its three closing quotes. One or two quotes are part of the
string, and so are up to two in front of the closing ones. In double quotes there are escapes, of which
one hides a line ending and all blanks and line endings behind it. -/
def longString? (quote : Char) (acc : Text) : Nat → Text → Option (String × Text)
  | 0, _ => none
  | _ + 1, [] => none
  | fuel + 1, c :: rest =>
    if c == quote then
      let run := 1 + (rest.takeWhile (· == quote)).length
      let rest := rest.dropWhile (· == quote)
      if run < 3 then longString? quote (List.replicate run quote ++ acc) fuel rest
      else if run < 6 then
        some (String.ofList (List.replicate (run - 3) quote ++ acc).reverse, rest)
      else none
    else if c == '\\' && quote == '"' then
      if hidesLineEnd rest then longString? quote acc fuel (skipBlankLines rest)
      else
        (Escaped.escape? escapes rest).bind fun (d, count) =>
          longString? quote (d :: acc) fuel (rest.drop count)
    else
      match newline? (c :: rest) with
      | some rest => longString? quote ('\n' :: acc) fuel rest
      | none => if isPrintable c then longString? quote (c :: acc) fuel rest else none

/-- A string over several lines, from behind the opening quotes. A line ending right behind them is not
part of it. -/
def linesString? (quote : Char) (text : Text) : Option (String × Text) :=
  longString? quote [] text.length ((newline? text).getD text)

/-- A string of any kind. -/
def string? : Text → Option (String × Text)
  | '"' :: '"' :: '"' :: rest => linesString? '"' rest
  | '\'' :: '\'' :: '\'' :: rest => linesString? '\'' rest
  | '"' :: rest => basicString? rest
  | '\'' :: rest => literalString? rest
  | _ => none

/-- Whether a character may stand in a key without quotes. -/
def isBareKey (c : Char) : Bool := c.isAlphanum || c == '_' || c == '-'

/-- One part of a key. -/
def simpleKey? : Text → Option (String × Text)
  | '"' :: rest => basicString? rest
  | '\'' :: rest => literalString? rest
  | rest =>
    match rest.takeWhile isBareKey with
    | [] => none
    | word => some (String.ofList word, rest.dropWhile isBareKey)

/-- The parts of a key, with dots between them. `fuel` is how many there may be. -/
def keyParts? : Nat → Text → Option (List String × Text)
  | 0, _ => none
  | fuel + 1, text => do
    let (part, rest) ← simpleKey? (skipBlanks text)
    match skipBlanks rest with
    | '.' :: rest =>
      let (parts, rest) ← keyParts? fuel rest
      some (part :: parts, rest)
    | rest => some ([part], rest)

/-- Nothing may be nested deeper than this: the parts of a key, or arrays and inline tables. -/
def maxDepth : Nat := 79

/-- A key. -/
def key? (text : Text) : Option (List String × Text) := keyParts? maxDepth text

/-! ## Values -/

mutual

/-- Read one value. `depth` is how many more arrays and inline tables may be opened. -/
def value? : Nat → Nat → Text → Option (Value × Text)
  | 0, _, _ => none
  | fuel + 1, depth, text =>
    match depth, text with
    | 0, '[' :: _ => none
    | 0, '\x7b' :: _ => none
    | depth + 1, '[' :: rest => (items? fuel depth rest).map fun (vs, rest) => (.list vs, rest)
    | depth + 1, '\x7b' :: rest =>
      match skipBlanks rest with
      | '\x7d' :: rest => some (.table [], rest)
      | rest => (pairs? fuel depth [] rest).map fun (es, rest) => (.table (entryValues es), rest)
    | _, '"' :: _ => (string? text).map fun (s, rest) => (.str s, rest)
    | _, '\'' :: _ => (string? text).map fun (s, rest) => (.str s, rest)
    | _, _ => word? text

/-- Read the items of an array, up to its closing bracket. A comma may stand behind the last. -/
def items? : Nat → Nat → Text → Option (List Value × Text)
  | 0, _, _ => none
  | fuel + 1, depth, text =>
    match skipLayout fuel text with
    | ']' :: rest => some ([], rest)
    | text => do
      let (v, rest) ← value? fuel depth text
      match skipLayout fuel rest with
      | ',' :: rest =>
        let (vs, rest) ← items? fuel depth rest
        some (v :: vs, rest)
      | ']' :: rest => some ([v], rest)
      | _ => none

/-- Read the pairs of an inline table, up to its closing brace. -/
def pairs? : Nat → Nat → Table Node → Text → Option (Table Node × Text)
  | 0, _, _, _ => none
  | fuel + 1, depth, entries, text => do
    let (path, rest) ← key? text
    match rest with
    | '=' :: rest =>
      let (v, rest) ← value? fuel depth (skipBlanks rest)
      let entries ← setKey v path entries
      match skipBlanks rest with
      | ',' :: rest => pairs? fuel depth entries rest
      | '\x7d' :: rest => some (entries, rest)
      | _ => none
    | _ => none

end

/-! ## Files -/

/-- What a line says. -/
inductive Entry where
  /-- The header of a table. -/
  | table (path : List String)
  /-- The header of an element of an array of tables. -/
  | element (path : List String)
  /-- A key with its value. -/
  | assignment (path : List String) (v : Value)

/-- A line, up to where the next one starts. -/
def entry? (fuel : Nat) (text : Text) : Option (Entry × Text) :=
  match text with
  | '[' :: '[' :: rest => do
    let (path, rest) ← key? rest
    match rest with
    | ']' :: ']' :: rest => some (.element path, ← lineEnd? rest)
    | _ => none
  | '[' :: rest => do
    let (path, rest) ← key? rest
    match rest with
    | ']' :: rest => some (.table path, ← lineEnd? rest)
    | _ => none
  | text => do
    let (path, rest) ← key? text
    match rest with
    | '=' :: rest =>
      let (v, rest) ← value? fuel maxDepth (skipBlanks rest)
      some (.assignment path v, ← lineEnd? rest)
    | _ => none

/-- What has been read of a file: all tables, and the path of the one that is open. -/
structure State where
  root : Table Node := []
  path : List String := []

/-- Take up a line. -/
def State.add? (state : State) : Entry → Option State
  | .table path => (openTable path state.root).map (⟨·, path⟩)
  | .element path => (addTable path state.root).map (⟨·, path⟩)
  | .assignment path v => (changeTable (setKey v path) state.path state.root).map (⟨·, state.path⟩)

/-- Read lines up to the end of the file. Each round takes something from the text, and what reads a
value takes two rounds for a character at most, so twice the length of the file is fuel enough. -/
def lines? : Nat → State → Text → Option State
  | 0, _, _ => none
  | fuel + 1, state, text =>
    match skipLayout fuel text with
    | [] => some state
    | text => do
      let (entry, rest) ← entry? fuel text
      lines? fuel (← state.add? entry) rest

/-- Read a file. A byte order mark may stand in front. -/
def parse? (text : Text) : Option Value :=
  let text := match text with
    | '\ufeff' :: rest => rest
    | text => text
  (lines? (2 * text.length + 2) {} text).map fun state => .table (entryValues state.root)

end Toml

end YamlStyle
