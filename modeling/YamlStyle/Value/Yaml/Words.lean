import YamlStyle.Value.Double

/-!
# What the words of YAML stand for

A scalar that is written without quotes is a word, and a word is no value, a boolean, an integer or a
float if it looks like one, and a string otherwise.

Integers have up to 128 bits. Beyond that a decimal integer is a float. Digits with a zero in front are
a string, and so is a number that is beyond the greatest double.
-/

set_option autoImplicit false

namespace YamlStyle

namespace Yaml

/-- Whether a word is one of some words. -/
def isOneOf (words : List String) (word : Text) : Bool := words.any (·.toList == word)

/-- The words for no value, apart from the empty one. -/
def isNull (word : Text) : Bool := isOneOf ["~", "null", "Null", "NULL"] word

/-- The boolean that a word stands for. -/
def bool? (word : Text) : Option Bool :=
  if isOneOf ["true", "True", "TRUE"] word then some true
  else if isOneOf ["false", "False", "FALSE"] word then some false
  else none

/-! ## Integers -/

/-- The number that some digits of a base write, if they are digits of that base. -/
def magnitude? (base : Nat) (ds : Text) : Option Nat :=
  if ds.isEmpty then none
  else
    ds.foldl (fun n c => do
      let n ← n
      let d ← hexValue? c
      if d < base then some (base * n + d) else none) (some 0)

/-- The number without its sign. Decimal numbers have no leading zero. -/
def unsigned? : Text → Option Nat
  | '0' :: 'x' :: ds => magnitude? 16 ds
  | '0' :: 'o' :: ds => magnitude? 8 ds
  | '0' :: 'b' :: ds => magnitude? 2 ds
  | '0' :: _ :: _ => none
  | ds => magnitude? 10 ds

/-- A sign, and what follows it. -/
def sign : Text → Bool × Text
  | '-' :: rest => (true, rest)
  | '+' :: rest => (false, rest)
  | rest => (false, rest)

/-- Least and greatest integers of 128 bits, signed and unsigned. -/
def minWide : Int := -170141183460469231731687303715884105728

@[inherit_doc minWide] def maxWide : Int := 340282366920938463463374607431768211455

/-- The integer that a word stands for. -/
def integer? (word : Text) : Option Int := do
  let (negative, ds) := sign word
  let n ← unsigned? ds
  let n : Int := if negative then -(n : Int) else n
  if minWide ≤ n ∧ n ≤ maxWide then some n else none

/-! ## Floats -/

/-- Whether digits are written with a zero in front, which makes them a string. -/
def hasLeadingZero (word : Text) : Bool :=
  match (sign word).2 with
  | '0' :: c :: rest => (c :: rest).all Char.isDigit
  | _ => false

/-- The power of ten that an exponent stands for; none is written for the power zero. -/
def exponent? : Text → Option Int
  | [] => some 0
  | c :: rest =>
    let (negative, ds) := sign rest
    if (c == 'e' || c == 'E') && !ds.isEmpty && ds.all Char.isDigit then
      some (if negative then -(decimalValue ds : Int) else decimalValue ds)
    else none

/-- The digits of a float without its sign, and the power of ten that goes with them. Digits may be
missing on one side of the point. -/
def numeral? (body : Text) : Option (Text × Int) :=
  let whole := body.takeWhile Char.isDigit
  match body.dropWhile Char.isDigit with
  | '.' :: rest =>
    let fraction := rest.takeWhile Char.isDigit
    if whole.isEmpty && fraction.isEmpty then none
    else
      (exponent? (rest.dropWhile Char.isDigit)).map fun e =>
        (whole ++ fraction, e - fraction.length)
  | rest => if whole.isEmpty then none else (exponent? rest).map (whole, ·)

/-- Whether a word is a float. -/
def isFloat (word : Text) : Bool :=
  let body := (sign word).2
  isOneOf [".inf", ".Inf", ".INF"] body || isOneOf [".nan", ".NaN", ".NAN"] word
    || match numeral? body with
      | some (ds, e) => Double.inRange ds e
      | none => false

/-! ## Words -/

/-- What a word stands for. -/
def wordValue (word : Text) : Value :=
  if word.isEmpty || isNull word then .null
  else
    match bool? word, integer? word with
    | some b, _ => .bool b
    | none, some n => .int n
    | none, none =>
      if isFloat word && !hasLeadingZero word then .float (String.ofList word)
      else .str (String.ofList word)

end Yaml

end YamlStyle
