import YamlStyle.Value

/-!
# Strings with escapes

The formats of configuration files agree on what a string in double quotes is, and differ in which
escapes they know. An `EscapeStyle` is that difference.
-/

set_option autoImplicit false

namespace YamlStyle

/-- The escapes of a format. -/
structure EscapeStyle where
  /-- The character that a short escape stands for. -/
  short : Char → Option Char
  /-- The number of hexadecimal digits behind an escape that gives a code point. -/
  digits : Char → Option Nat

namespace Escaped

/-- The character of a code point that is given by this number of hexadecimal digits. -/
def codePoint? (count : Nat) (text : Text) : Option Char := do
  let ds := text.take count
  if ds.length < count then none else charOfCode? (← hexNumber? ds)

/-- Read one escape from behind the backslash, and say how many characters it takes. -/
def escape? (style : EscapeStyle) : Text → Option (Char × Nat)
  | [] => none
  | c :: rest =>
    match style.digits c with
    | some count => (codePoint? count rest).map (·, count + 1)
    | none => (style.short c).map (·, 1)

/-- Read a string up to its closing quote. `acc` is what has been read, last character first. Each
round takes something from the text, so its length is fuel enough. -/
def body (style : EscapeStyle) (isAllowed : Char → Bool) (acc : Text) :
    Nat → Text → Option (String × Text)
  | 0, _ => none
  | _ + 1, [] => none
  | fuel + 1, c :: rest =>
    if c == '"' then some (String.ofList acc.reverse, rest)
    else if c == '\\' then
      (escape? style rest).bind fun (d, count) =>
        body style isAllowed (d :: acc) fuel (rest.drop count)
    else if isAllowed c then body style isAllowed (c :: acc) fuel rest
    else none

/-- Read a string from behind its opening quote, and return what follows it. `isAllowed` says which
characters may stand in it as they are. -/
def read? (style : EscapeStyle) (isAllowed : Char → Bool) (text : Text) : Option (String × Text) :=
  body style isAllowed [] text.length text

/-- The short escapes that nearly all formats know. -/
def commonEscape? : Char → Option Char
  | 'b' => some '\x08'
  | 't' => some '\t'
  | 'n' => some '\n'
  | 'f' => some '\x0c'
  | 'r' => some '\r'
  | '"' => some '"'
  | '\\' => some '\\'
  | _ => none

/-- Code points of four or of eight digits. -/
def longCode? : Char → Option Nat
  | 'u' => some 4
  | 'U' => some 8
  | _ => none

end Escaped

end YamlStyle
