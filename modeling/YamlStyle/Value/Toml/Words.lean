import YamlStyle.Value.Double
import YamlStyle.Value.Toml.DateTime

/-!
# Values of TOML that are written without quotes and brackets

Booleans, integers, floats, dates and times. A word goes as far as its characters allow, and all of
it has to be one of these.
-/

set_option autoImplicit false

namespace YamlStyle

namespace Toml

/-- Digits with single underscores between them, without the underscores. -/
def digits? (isDigit : Char → Bool) : Text → Option Text
  | [] => none
  | [c] => if isDigit c then some [c] else none
  | c :: '_' :: rest => if isDigit c then (digits? isDigit rest).map (c :: ·) else none
  | c :: rest => if isDigit c then (digits? isDigit rest).map (c :: ·) else none

/-- The number that digits of a base write. -/
def baseValue (base : Nat) (ds : Text) : Nat :=
  ds.foldl (fun n c => base * n + (hexValue? c).getD 0) 0

/-- A sign, and what follows it. -/
def sign : Text → Bool × Text
  | '-' :: rest => (true, rest)
  | '+' :: rest => (false, rest)
  | rest => (false, rest)

/-- Decimal digits without a leading zero. -/
def decimal? (text : Text) : Option Text :=
  match digits? Char.isDigit text with
  | some ('0' :: _ :: _) => none
  | ds => ds

/-- An integer of 64 bits. -/
def integer? (word : Text) : Option Int := do
  let n : Int ← match word with
    | '0' :: 'x' :: rest => (digits? (hexValue? · |>.isSome) rest).map fun ds => (baseValue 16 ds : Int)
    | '0' :: 'o' :: rest =>
      (digits? (fun c => '0' ≤ c && c ≤ '7') rest).map fun ds => (baseValue 8 ds : Int)
    | '0' :: 'b' :: rest =>
      (digits? (fun c => c == '0' || c == '1') rest).map fun ds => (baseValue 2 ds : Int)
    | _ => (decimal? (sign word).2).map fun ds =>
        if (sign word).1 then -(decimalValue ds : Int) else (decimalValue ds : Int)
  if Value.minInt ≤ n ∧ n ≤ Value.maxInt then some n else none

/-- The power of ten that an exponent stands for; none is written for the power zero. -/
def exponent? : Text → Option Int
  | [] => some 0
  | c :: rest =>
    if c == 'e' || c == 'E' then
      (digits? Char.isDigit (sign rest).2).map fun ds =>
        if (sign rest).1 then -(decimalValue ds : Int) else (decimalValue ds : Int)
    else none

/-- Whether a character is part of the digits of a number. -/
def isDigitOrUnderscore (c : Char) : Bool := c.isDigit || c == '_'

/-- The digits of a float without its sign, and the power of ten that goes with them. -/
def numeral? (body : Text) : Option (Text × Int) := do
  let whole ← decimal? (body.takeWhile isDigitOrUnderscore)
  match body.dropWhile isDigitOrUnderscore with
  | [] => none
  | '.' :: rest =>
    let fraction ← digits? Char.isDigit (rest.takeWhile isDigitOrUnderscore)
    let e ← exponent? (rest.dropWhile isDigitOrUnderscore)
    some (whole ++ fraction, e - fraction.length)
  | rest => (exponent? rest).map (whole, ·)

/-- Whether a word is a float. What is greater than all doubles is none; what is less than all of them
is the negative infinity. -/
def isFloat (word : Text) : Bool :=
  let (negative, body) := sign word
  if body == "inf".toList || body == "nan".toList then true
  else
    match numeral? body with
    | some (ds, e) => negative || Double.inRange ds e
    | none => false

/-- Whether a character can be part of a number or a word. -/
def isWordChar (c : Char) : Bool := c.isAlphanum || c == '_' || c == '+' || c == '-' || c == '.'

/-- What a whole word stands for. -/
def wordValue? (word : Text) : Option Value :=
  if word == "true".toList then some (.bool true)
  else if word == "false".toList then some (.bool false)
  else
    match integer? word with
    | some n => some (.int n)
    | none => if isFloat word then some (.float (String.ofList word)) else none

/-- A value without quotes and brackets. -/
def word? (text : Text) : Option (Value × Text) :=
  match dateTime? text with
  | some (s, rest) => some (.table [(dateTimeKey, .str s)], rest)
  | none => (wordValue? (text.takeWhile isWordChar)).map (·, text.dropWhile isWordChar)

end Toml

end YamlStyle
