import YamlStyle.Text.WhiteSpace
import YamlStyle.Value.Escaped
import YamlStyle.Value.Merge

/-!
# Values from the environment

Environment variables set configuration values, too. The name of a variable is a prefix, in any case,
and a key, whose parts are divided by dots; a variable with an empty part in its key says nothing.

The value has a grammar of its own: booleans, numbers, strings in double quotes, single characters in
single quotes, lists in brackets and tables in braces. Anything that does not fit is simply a string,
so that most values need no quotes.

A string with an escape in it is put together from what stands before the first escape and what comes
from there on. The piece before it is cut out by a number of **bytes**, which is the number of its
characters; so characters of several bytes cost it its end, and where the cut falls inside a
character, nothing can be made of the variable at all.
-/

set_option autoImplicit false

namespace YamlStyle

namespace Environment

/-! ## Values -/

/-- The white space that may surround values. -/
def isSpace (c : Char) : Bool :=
  c == ' ' || c == '\t' || c == '\n' || c == '\r' || c == '\x0c'

/-- Drop leading white space. -/
def skip (text : Text) : Text := text.dropWhile isSpace

/-- The characters that end a bare value. -/
def isSeparator (c : Char) : Bool :=
  c == ',' || c == '\x7b' || c == '\x7d' || c == '[' || c == ']'

/-- The characters a bare key is made of. -/
def isKeyChar (c : Char) : Bool := c.isAlphanum || c == '_' || c == '-'

/-- Why a text is not the written form of a value. -/
inductive Refusal where
  /-- It does not fit the grammar. -/
  | malformed
  /-- A character would have to be cut in two. -/
  | splitCharacter
  deriving DecidableEq, Repr

/-- Whether a character may stand in a string as it is. -/
def isPrintable (c : Char) : Bool := c == '\t' || (0x20 ≤ c.toNat && c.toNat != 0x7F)

/-- The escapes of strings. -/
def escapes : EscapeStyle := ⟨Escaped.commonEscape?, Escaped.longCode?⟩

/-- The text up to a closing quote, and what follows the quote. A quote behind a backslash does not
close. -/
def untilQuote (escaped : Bool) : Text → Option (Text × Text)
  | [] => none
  | c :: rest =>
    if c == '"' && !escaped then some ([], rest)
    else (untilQuote (c == '\\' && !escaped) rest).map fun (inside, rest) => (c :: inside, rest)

/-- What the text between two quotes stands for. -/
def unescape (inside : Text) : Except Refusal String :=
  let front := inside.takeWhile (· != '\\')
  let back := inside.dropWhile (· != '\\')
  if !front.all isPrintable then .error .malformed
  else if back.isEmpty then .ok (String.ofList front)
  else
    match splitAt? front front.length, Escaped.read? escapes isPrintable (back ++ ['"']) with
    | none, _ => .error .splitCharacter
    | some _, none => .error .malformed
    | some (front, _), some (back, _) => .ok (String.ofList front ++ back)

/-- A string, from behind its opening quote. -/
def string (text : Text) : Except Refusal (String × Text) :=
  match untilQuote false text with
  | none => .error .malformed
  | some (inside, rest) => (unescape inside).map fun s => (s, rest)

/-- A text without the white space at either end. -/
def trim (text : Text) : Text :=
  (skipWhiteSpace (skipWhiteSpace text).reverse).reverse

/-- Whether a text is an exponent, or nothing. -/
def isExponent : Text → Bool
  | [] => true
  | c :: rest =>
    let ds := match rest with
      | '+' :: ds => ds
      | '-' :: ds => ds
      | ds => ds
    (c == 'e' || c == 'E') && !ds.isEmpty && ds.all Char.isDigit

/-- Whether a word with a point in it is a number. -/
def isFloat (word : Text) : Bool :=
  let body := match word with
    | '+' :: rest => rest
    | '-' :: rest => rest
    | rest => rest
  match body.dropWhile Char.isDigit with
  | '.' :: rest =>
    (!(body.takeWhile Char.isDigit).isEmpty || !(rest.takeWhile Char.isDigit).isEmpty)
      && isExponent (rest.dropWhile Char.isDigit)
  | _ => false

/-- An integer that fits into 64 bits. -/
def integer? (word : Text) : Option Int :=
  let (negative, ds) := match word with
    | '+' :: rest => (false, rest)
    | '-' :: rest => (true, rest)
    | rest => (false, rest)
  if ds.isEmpty || !ds.all Char.isDigit then none
  else
    let n : Int := if negative then -(decimalValue ds : Int) else decimalValue ds
    if Value.minInt ≤ n ∧ n ≤ Value.maxNat then some n else none

/-- What a bare word stands for. -/
def wordValue (word : Text) : Value :=
  if isFloat word then .float (String.ofList word)
  else
    match integer? word with
    | some n => .int n
    | none => .str (String.ofList word)

/-- A bare word, up to a separator. -/
def word (text : Text) : Value × Text :=
  (wordValue (trim (text.takeWhile (!isSeparator ·))), text.dropWhile (!isSeparator ·))

/-- A key of a table. -/
def key (text : Text) : Except Refusal (String × Text) :=
  match text with
  | '"' :: rest => string rest
  | text =>
    match text.takeWhile isKeyChar with
    | [] => .error .malformed
    | name => .ok (String.ofList name, text.dropWhile isKeyChar)

mutual

/-- Read one value with white space around it. -/
def value : Nat → Text → Except Refusal (Value × Text)
  | 0, _ => .error .malformed
  | fuel + 1, text => do
    let (v, rest) ← match skip text with
      | 't' :: 'r' :: 'u' :: 'e' :: rest => .ok (.bool true, rest)
      | 'f' :: 'a' :: 'l' :: 's' :: 'e' :: rest => .ok (.bool false, rest)
      | '\x7b' :: rest => (pairs fuel rest).map fun (es, rest) => (.table (Table.ofList es), rest)
      | '[' :: rest => (items fuel rest).map fun (vs, rest) => (.list vs, rest)
      | '"' :: rest => (string rest).map fun (s, rest) => (.str s, rest)
      | '\'' :: c :: '\'' :: rest => .ok (.char c, rest)
      | '\'' :: _ => .error .malformed
      | rest => .ok (word rest)
    pure (v, skip rest)

/-- Read the items of a list, up to its closing bracket. A comma may stand behind the last. -/
def items : Nat → Text → Except Refusal (List Value × Text)
  | 0, _ => .error .malformed
  | fuel + 1, text =>
    match text with
    | ']' :: rest => .ok ([], rest)
    | text => do
      let (v, rest) ← value fuel text
      match rest with
      | ',' :: rest =>
        let (vs, rest) ← items fuel rest
        pure (v :: vs, rest)
      | ']' :: rest => pure ([v], rest)
      | _ => throw .malformed

/-- Read the pairs of a table, up to its closing brace. A comma may stand behind the last. -/
def pairs : Nat → Text → Except Refusal (List (String × Value) × Text)
  | 0, _ => .error .malformed
  | fuel + 1, text =>
    match text with
    | '\x7d' :: rest => .ok ([], rest)
    | text => do
      let (name, rest) ← key (skip text)
      match skip rest with
      | '=' :: rest =>
        let (v, rest) ← value fuel rest
        match rest with
        | ',' :: rest =>
          let (es, rest) ← pairs fuel rest
          pure ((name, v) :: es, rest)
        | '\x7d' :: rest => pure ([(name, v)], rest)
        | _ => throw .malformed
      | _ => throw .malformed

end

/-- What the text of a variable stands for. A text that does not fit the grammar is a string; there is
nothing if a character would have to be cut in two. -/
def parse? (text : String) : Option Value :=
  match value (2 * text.length + 2) text.toList with
  | .ok (v, []) => some v
  | .error .splitCharacter => none
  | _ => some (.str text)

/-! ## Variables -/

/-- The prefix of the variables that are read, in lower case. -/
def namePrefix : Text := "ymlint_".toList

/-- The parts of a text between dots. -/
def splitDots : Text → List Text
  | [] => [[]]
  | c :: rest =>
    if c == '.' then [] :: splitDots rest
    else
      match splitDots rest with
      | part :: parts => (c :: part) :: parts
      | [] => [[c]]

/-- The key of a variable, as the path to it. -/
def path? (name : String) : Option (List String) :=
  let name := trim (name.toList.map Char.toLower)
  if namePrefix.isPrefixOf name then
    let parts := splitDots (trim (name.drop namePrefix.length))
    if parts.any List.isEmpty then none else some (parts.map String.ofList)
  else none

/-- A value at the end of a path of tables. -/
def nest (v : Value) : List String → Value
  | [] => v
  | name :: rest => .table [(name, nest v rest)]

/-- What one variable says, if anything: the value at the end of its path, or the name of the variable
if nothing can be made of its text. -/
def entry (name text : String) : Option (Except String Value) :=
  (path? name).map fun path =>
    match parse? text with
    | some v => .ok (nest v path)
    | none => .error name

/-- What the environment says, all variables laid over each other in order; or the first variable of
which nothing can be made. -/
def toValue (environment : List (String × String)) : Except String Value := do
  let entries ← (environment.filterMap fun (name, text) => entry name text).mapM id
  pure (Value.overlayAll (.table []) entries)

end Environment

end YamlStyle
