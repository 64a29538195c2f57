import YamlStyle.Value

/-!
# Numbers of double precision

A double that is not negative is `m · 2^e` for a natural number `m` of at most 53 bits and an
exponent between -1074 and 971. Products and quotients are computed exactly and rounded once, to the
nearest double, and to the one with an even `m` where two are equally near. What is beyond the
greatest double is no double: there is no infinity here.

A double is written with the fewest decimal digits that read back as the same double. Digits are
chosen by exact arithmetic: for one digit, two digits and so on, the two neighbours of the number
that have that many digits are rounded and compared with it.
-/

set_option autoImplicit false

namespace YamlStyle

/-- The number `mantissa · 2^exponent`. -/
structure Double where
  mantissa : Nat
  exponent : Int
  deriving DecidableEq, Repr

namespace Double

/-! ## Rounding -/

/-- The least exponent. -/
def minExponent : Int := -1074

/-- The greatest exponent. -/
def maxExponent : Int := 971

/-- The natural number nearest to a quotient, the even one of two that are equally near. -/
def roundDiv (num den : Nat) : Nat :=
  let q := num / den
  match compare (2 * (num % den)) den with
  | .lt => q
  | .gt => q + 1
  | .eq => if q % 2 = 0 then q else q + 1

/-- A quotient divided by a power of two, as numerator and denominator. -/
def scaled (num den : Nat) (e : Int) : Nat × Nat :=
  (num * Nat.pow 2 (-e).toNat, den * Nat.pow 2 e.toNat)

/-- The exponent at which a quotient has 53 bits, or the least exponent. -/
def exponentFor (num den : Nat) : Int :=
  let guess : Int := (num.log2 : Int) - den.log2 - 53
  let (n, d) := scaled num den guess
  max minExponent (if n / d < Nat.pow 2 53 then guess else guess + 1)

/-- The double nearest to a quotient, unless it is beyond the greatest double. -/
def nearest? (num den : Nat) : Option Double :=
  let e := exponentFor num den
  let (n, d) := scaled num den e
  let m := roundDiv n d
  let x : Double := if m = Nat.pow 2 53 then ⟨Nat.pow 2 52, e + 1⟩ else ⟨m, e⟩
  if num = 0 then some ⟨0, minExponent⟩
  else if x.exponent ≤ maxExponent then some x
  else none

/-- Whether this is zero. -/
def isZero (x : Double) : Bool := x.mantissa == 0

/-- A double as a quotient of natural numbers. -/
def quotient (x : Double) : Nat × Nat :=
  (x.mantissa * Nat.pow 2 x.exponent.toNat, Nat.pow 2 (-x.exponent).toNat)

/-- The product of two doubles. -/
def mul? (x y : Double) : Option Double :=
  nearest? (x.quotient.1 * y.quotient.1) (x.quotient.2 * y.quotient.2)

/-- The quotient of two doubles. -/
def div? (x y : Double) : Option Double :=
  nearest? (x.quotient.1 * y.quotient.2) (x.quotient.2 * y.quotient.1)

/-! ## Powers of ten -/

/-- The greatest exponent of a power of ten that is a double. -/
def maxPower : Nat := 308

/-- A power of ten. -/
def powerOfTen? (n : Nat) : Option Double := nearest? (Nat.pow 10 n) 1

/-- A double divided some times by the greatest power of ten. -/
def divSteps? (x : Double) : Nat → Option Double
  | 0 => some x
  | steps + 1 => (divSteps? x steps).bind fun y => (powerOfTen? maxPower).bind y.div?

/-- A double divided by `10^n`. The power is a double, too, so the result is rounded twice; powers
out of range are divided off in steps, of which three leave nothing of any double. -/
def divPower? (x : Double) (n : Nat) : Option Double :=
  (x.divSteps? (min 3 ((n - 1) / maxPower))).bind fun y =>
    (powerOfTen? (n - maxPower * ((n - 1) / maxPower))).bind y.div?

/-- A double times `10^n`, which is rounded twice in the same way. -/
def mulPower? (x : Double) (n : Nat) : Option Double :=
  if x.isZero then some x
  else if n ≤ maxPower then (powerOfTen? n).bind x.mul?
  else none

/-- A double times a power of ten. -/
def scale? (x : Double) (e : Int) : Option Double :=
  if 0 ≤ e then x.mulPower? e.toNat else x.divPower? (-e).toNat

/-- Whether a numeral, its digits times `10^e`, is within the range of doubles. Numerals so large or so
small that their size alone decides are never computed. -/
def inRange (digits : Text) (e : Int) : Bool :=
  let ds := digits.dropWhile (· == '0')
  let point := (ds.length : Int) + e
  if ds.isEmpty || decide (point ≤ 308) then true
  else if point > 309 then false
  else
    let (num, den) := (decimalValue ds * Nat.pow 10 e.toNat, Nat.pow 10 (-e).toNat)
    (nearest? num den).isSome

/-! ## Writing -/

/-- The least `k` for which a quotient is below `10^k`. -/
def decimalPoint (num den : Nat) : Int :=
  if den ≤ num then (Nat.toDigits 10 (num / den)).length
  else 1 - ((Nat.toDigits 10 ((den + num - 1) / num - 1)).length : Int)

/-- A quotient of which numerator or denominator is multiplied by a power of ten. -/
def shifted (num den : Nat) (e : Int) : Nat × Nat :=
  (num * Nat.pow 10 e.toNat, den * Nat.pow 10 (-e).toNat)

/-- Whether digits with a power of ten read back as this double. -/
def readsBack (x : Double) (digits : Nat) (e : Int) : Bool :=
  let (n, d) := shifted digits 1 e
  nearest? n d == some x

/-- The multiple of `10^e` next to this double that reads back, the nearer one of two. -/
def neighbour? (x : Double) (e : Int) : Option Nat :=
  let (n, d) := shifted x.quotient.1 x.quotient.2 (-e)
  let below := n / d
  match x.readsBack below e, x.readsBack (below + 1) e with
  | true, true => some (roundDiv n d)
  | true, false => some below
  | false, true => some (below + 1)
  | false, false => none

/-- Look for digits, first with the power of ten `e`, then with smaller ones. -/
def search (x : Double) (e : Int) : Nat → Nat × Int
  | 0 => (x.mantissa, 0)
  | tries + 1 =>
    match x.neighbour? e with
    | some digits => (digits, e)
    | none => search x (e - 1) tries

/-- The fewest digits that read back, and their power of ten. Seventeen digits always do. -/
def shortest (x : Double) : Nat × Int :=
  search x (decimalPoint x.quotient.1 x.quotient.2 - 1) 17

/-- A text without the zeros at its end. -/
def dropZeros (digits : Text) : Text := (digits.reverse.dropWhile (· == '0')).reverse

/-- Digits with the decimal point behind the first `point` of them. Numbers from 0.00001 up to but
not including 10^16 are written out, the others with an exponent. -/
def layout (digits : Text) (point : Int) : Text :=
  if 0 < point ∧ point ≤ 16 then
    let whole := digits.take point.toNat ++ List.replicate (point.toNat - digits.length) '0'
    match digits.drop point.toNat with
    | [] => whole ++ ['.', '0']
    | rest => whole ++ '.' :: rest
  else if -5 < point ∧ point ≤ 0 then
    '0' :: '.' :: List.replicate (-point).toNat '0' ++ digits
  else
    let exponent := point - 1
    let fraction := match digits.drop 1 with
      | [] => []
      | rest => '.' :: rest
    digits.take 1 ++ fraction ++ 'e' :: (if 0 ≤ exponent then '+' else '-')
      :: Nat.toDigits 10 exponent.natAbs

/-- The written form of a double, or of its negative. -/
def text (negative : Bool) (x : Double) : Text :=
  let sign := if negative then ['-'] else []
  if x.isZero then sign ++ ['0', '.', '0']
  else
    let (digits, e) := x.shortest
    let digits := Nat.toDigits 10 digits
    sign ++ layout (dropZeros digits) (digits.length + e)

end Double

end YamlStyle
