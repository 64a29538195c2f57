import YamlStyle.Value
import YamlStyle.Value.Double

/-!
# JSON

Reading and writing JSON. The reader is strict: it takes one value with blanks around it, no control
characters inside strings, no lone surrogates, no numerals with leading zeros, no numbers beyond the
range of a double, and no nesting of 128 levels or more. Of two entries with the same name in an
object the later one counts.

A numeral that is no integer of 64 bits is a double. It is read by way of a **significand** of 64
bits, which takes as many digits as fit, and a power of ten. Significand and power are rounded to
doubles before they are multiplied, so the result can differ from the nearest double in its last bit.

The writer escapes what has to be escaped and leaves everything else as it is. The indented form puts
each item on a line of its own, two blanks deeper than its container, and keeps empty containers
closed up.
-/

set_option autoImplicit false

namespace YamlStyle

namespace Json

/-! ## Reading -/

/-- The blanks between the tokens of JSON. -/
def isSpace (c : Char) : Bool := c == ' ' || c == '\t' || c == '\n' || c == '\r'

/-- Drop leading blanks. -/
def skip (text : Text) : Text := text.dropWhile isSpace

/-- What the reader of a string expects next. -/
inductive StringMode where
  /-- An ordinary character. -/
  | plain
  /-- The character after a backslash. -/
  | escape
  /-- Another hexadecimal digit: how many are missing, and the number so far. -/
  | unicode (missing number : Nat)

/-- The character that a short escape stands for. -/
def shortEscape? : Char → Option Char
  | '"' => some '"'
  | '\\' => some '\\'
  | '/' => some '/'
  | 'b' => some '\x08'
  | 'f' => some '\x0c'
  | 'n' => some '\n'
  | 'r' => some '\r'
  | 't' => some '\t'
  | _ => none

/-- Whether a code unit is the first half of a surrogate pair. -/
def isHighSurrogate (n : Nat) : Bool := 0xD800 ≤ n && n < 0xDC00

/-- Whether a code unit is the second half of a surrogate pair. -/
def isLowSurrogate (n : Nat) : Bool := 0xDC00 ≤ n && n < 0xE000

/-- Read a string from behind its opening quote. `high` is the first half of a surrogate pair whose
second half has to come now; `acc` is what has been read, last character first. -/
def stringBody (mode : StringMode) (high : Option Nat) (acc : Text) : Text → Option (String × Text)
  | [] => none
  | c :: rest =>
    match mode with
    | .plain =>
      if c == '\\' then stringBody .escape high acc rest
      else if high.isSome then none
      else if c == '"' then some (String.ofList acc.reverse, rest)
      else if c.toNat < 0x20 then none
      else stringBody .plain none (c :: acc) rest
    | .escape =>
      if c == 'u' then stringBody (.unicode 4 0) high acc rest
      else
        match high, shortEscape? c with
        | none, some d => stringBody .plain none (d :: acc) rest
        | _, _ => none
    | .unicode missing number =>
      match hexValue? c with
      | none => none
      | some digit =>
        let number := 16 * number + digit
        if missing > 1 then stringBody (.unicode (missing - 1) number) high acc rest
        else
          match high with
          | some h =>
            if isLowSurrogate number then
              match charOfCode? (0x10000 + (h - 0xD800) * 0x400 + (number - 0xDC00)) with
              | some d => stringBody .plain none (d :: acc) rest
              | none => none
            else none
          | none =>
            if isHighSurrogate number then stringBody .plain (some number) acc rest
            else
              match charOfCode? number with
              | some d => stringBody .plain none (d :: acc) rest
              | none => none

/-- Split off the decimal digits at the head of a text. -/
def digits (text : Text) : Text × Text := (text.takeWhile Char.isDigit, text.dropWhile Char.isDigit)

/-- The fraction of a numeral, if there is one. Nothing is returned for a point without digits. -/
def fraction? : Text → Option (Text × Text)
  | '.' :: rest =>
    match digits rest with
    | ([], _) => none
    | (ds, rest) => some ('.' :: ds, rest)
  | rest => some ([], rest)

/-- The exponent of a numeral, if there is one. Nothing is returned for a mark without digits. -/
def exponent? : Text → Option (Text × Text)
  | c :: rest =>
    if c == 'e' || c == 'E' then
      let (sign, tail) :=
        match rest with
        | '+' :: tail => (['+'], tail)
        | '-' :: tail => (['-'], tail)
        | tail => ([], tail)
      match digits tail with
      | ([], _) => none
      | (ds, tail) => some (c :: sign ++ ds, tail)
    else some ([], c :: rest)
  | [] => some ([], [])

/-- The exponent that an exponent part writes. -/
def exponentValue : Text → Int
  | _ :: '-' :: ds => -(decimalValue ds : Int)
  | _ :: '+' :: ds => decimalValue ds
  | _ :: ds => decimalValue ds
  | [] => 0

/-- The digits of a numeral as a natural number, and the power of ten that goes with it. -/
structure Significand where
  value : Nat
  power : Int
  deriving Repr

namespace Significand

/-- Whether a digit can be taken up. -/
def hasRoom (s : Significand) (c : Char) : Bool :=
  decide (10 * s.value + digitValue c ≤ Value.maxNat.toNat)

/-- Take up a digit. -/
def push (s : Significand) (c : Char) : Significand :=
  { s with value := 10 * s.value + digitValue c }

/-- Take up the digits in front of the point. Once a digit has no room, it and those behind it only
count for the power. -/
def pushWhole (s : Significand) : Text → Significand
  | [] => s
  | c :: rest =>
    if s.hasRoom c then (s.push c).pushWhole rest
    else { s with power := s.power + (rest.length + 1 : Nat) }

/-- Take up the digits behind the point, up to the first that has no room. -/
def pushFraction (s : Significand) : Text → Significand
  | [] => s
  | c :: rest =>
    if s.hasRoom c then { s.push c with power := s.power - 1 }.pushFraction rest else s

/-- The double that a significand and its power make. -/
def toDouble? (s : Significand) : Option Double :=
  (Double.nearest? s.value 1).bind (·.scale? s.power)

end Significand

/-- The double of a numeral, unless it is out of range. -/
def double? (whole frac expo : Text) : Option Double :=
  let s := ((⟨0, 0⟩ : Significand).pushWhole whole).pushFraction (frac.drop 1)
  { s with power := s.power + exponentValue expo }.toDouble?

/-- A numeral, from behind its sign. -/
def number? (negative : Bool) (text : Text) : Option (Value × Text) := do
  let (whole, rest) := digits text
  match whole with
  | [] => none
  | '0' :: _ :: _ => none
  | _ => pure ()
  let (frac, rest) ← fraction? rest
  let (expo, rest) ← exponent? rest
  let n : Int := if negative then -(decimalValue whole : Int) else decimalValue whole
  if frac.isEmpty && expo.isEmpty && Value.fitsWord n && !(negative && n == 0) then
    some (.int n, rest)
  else
    let x ← double? whole frac expo
    some (.float (String.ofList (x.text negative)), rest)

/-- Containers may be nested less deep than this. -/
def maxDepth : Nat := 128

mutual

/-- Read one value. `depth` is how many more containers may be opened. -/
def value? : Nat → Nat → Text → Option (Value × Text)
  | 0, _, _ => none
  | fuel + 1, depth, text =>
    match skip text with
    | '"' :: rest => (stringBody .plain none [] rest).map fun (s, rest) => (.str s, rest)
    | 'n' :: 'u' :: 'l' :: 'l' :: rest => some (.null, rest)
    | 't' :: 'r' :: 'u' :: 'e' :: rest => some (.bool true, rest)
    | 'f' :: 'a' :: 'l' :: 's' :: 'e' :: rest => some (.bool false, rest)
    | '-' :: rest => number? true rest
    | '[' :: rest =>
      if depth ≤ 1 then none
      else
        match skip rest with
        | ']' :: rest => some (.list [], rest)
        | rest => (items? fuel (depth - 1) rest).map fun (vs, rest) => (.list vs, rest)
    | '\x7b' :: rest =>
      if depth ≤ 1 then none
      else
        match skip rest with
        | '\x7d' :: rest => some (.table [], rest)
        | rest =>
          (members? fuel (depth - 1) rest).map fun (es, rest) => (.table (Table.ofList es), rest)
    | rest => number? false rest

/-- Read the items of a list, up to its closing bracket. -/
def items? : Nat → Nat → Text → Option (List Value × Text)
  | 0, _, _ => none
  | fuel + 1, depth, text => do
    let (v, rest) ← value? fuel depth text
    match skip rest with
    | ',' :: rest =>
      let (vs, rest) ← items? fuel depth rest
      some (v :: vs, rest)
    | ']' :: rest => some ([v], rest)
    | _ => none

/-- Read the members of an object, up to its closing bracket. -/
def members? : Nat → Nat → Text → Option (List (String × Value) × Text)
  | 0, _, _ => none
  | fuel + 1, depth, text =>
    match skip text with
    | '"' :: rest => do
      let (name, rest) ← stringBody .plain none [] rest
      match skip rest with
      | ':' :: rest =>
        let (v, rest) ← value? fuel depth rest
        match skip rest with
        | ',' :: rest =>
          let (es, rest) ← members? fuel depth rest
          some ((name, v) :: es, rest)
        | '\x7d' :: rest => some ([(name, v)], rest)
        | _ => none
      | _ => none
    | _ => none

end

/-- Read a document that holds one value. Every call of the readers above goes with a character of
its own, so the length of the text is fuel enough. -/
def parse? (text : Text) : Option Value :=
  match value? (2 * text.length + 2) maxDepth text with
  | some (v, rest) => if (skip rest).isEmpty then some v else none
  | none => none

/-! ## Writing -/

/-- The hexadecimal digit of a number below 16. -/
def hexDigit (n : Nat) : Char := (Nat.toDigits 16 n).headD '0'

/-- How a character is written inside a string. -/
def escape : Char → Text
  | '"' => ['\\', '"']
  | '\\' => ['\\', '\\']
  | '\x08' => ['\\', 'b']
  | '\x0c' => ['\\', 'f']
  | '\n' => ['\\', 'n']
  | '\r' => ['\\', 'r']
  | '\t' => ['\\', 't']
  | c =>
    if c.toNat < 0x20 then ['\\', 'u', '0', '0', hexDigit (c.toNat / 16), hexDigit (c.toNat % 16)]
    else [c]

/-- A string in quotes. -/
def quote (s : String) : String := String.ofList ('"' :: s.toList.flatMap escape ++ ['"'])

mutual

/-- The form without blanks. -/
def compact : Value → String
  | .null => "null"
  | .bool b => if b then "true" else "false"
  | .int n => toString n
  | .float text => text
  | .char c => quote (String.singleton c)
  | .str s => quote s
  | .list items => "[" ++ ",".intercalate (compactItems items) ++ "]"
  | .table entries => "\x7b" ++ ",".intercalate (compactEntries entries) ++ "\x7d"

/-- The items of a list, each in its form without blanks. -/
def compactItems : List Value → List String
  | [] => []
  | v :: vs => compact v :: compactItems vs

/-- The members of an object, each in its form without blanks. -/
def compactEntries : List (String × Value) → List String
  | [] => []
  | (k, v) :: es => (quote k ++ ":" ++ compact v) :: compactEntries es

end

/-- A line break and the indentation of a level. -/
def newline (level : Nat) : String := "\n" ++ String.ofList (List.replicate (2 * level) ' ')

/-- Lines of a container, between its brackets. -/
def bracketed (left right : String) (level : Nat) (rows : List String) : String :=
  match rows with
  | [] => left ++ right
  | _ =>
    left ++ newline (level + 1) ++ ("," ++ newline (level + 1)).intercalate rows ++ newline level
      ++ right

mutual

/-- The indented form, inside a container of the given level. -/
def indented (level : Nat) : Value → String
  | .null => "null"
  | .bool b => if b then "true" else "false"
  | .int n => toString n
  | .float text => text
  | .char c => quote (String.singleton c)
  | .str s => quote s
  | .list items => bracketed "[" "]" level (indentedItems (level + 1) items)
  | .table entries => bracketed "\x7b" "\x7d" level (indentedEntries (level + 1) entries)

/-- The items of a list, each in its indented form. -/
def indentedItems (level : Nat) : List Value → List String
  | [] => []
  | v :: vs => indented level v :: indentedItems level vs

/-- The members of an object, each in its indented form. -/
def indentedEntries (level : Nat) : List (String × Value) → List String
  | [] => []
  | (k, v) :: es => (quote k ++ ": " ++ indented level v) :: indentedEntries level es

end

/-- A document in indented form. -/
def pretty (v : Value) : String := indented 0 v

end Json

end YamlStyle
