import YamlStyle.Table
import YamlStyle.Text

/-!
# Configuration values

What a configuration file or an environment variable can say before anyone has asked what it means:
one type for the values of JSON, TOML, YAML and the environment.

Integers and floats are kept apart, since `1.0` is not an integer to anyone who reads a
configuration. Nothing computes with a float, so a float is a text that shows it. A single
character is what the environment can write between single quotes; it passes for a string nearly
everywhere.
-/

set_option autoImplicit false

namespace YamlStyle

/-- A configuration value. -/
inductive Value where
  | null
  | bool (b : Bool)
  | int (n : Int)
  | float (text : String)
  | char (c : Char)
  | str (s : String)
  | list (items : List Value)
  | table (entries : List (String × Value))
  deriving Repr, Inhabited, BEq

namespace Value

/-- The entry of a table; nothing for a value that is no table. -/
def get? : Value → String → Option Value
  | .table entries, name => Table.get? entries name
  | _, _ => none

/-- Least and greatest integers of 64 bits, signed and unsigned. -/
def minInt : Int := -9223372036854775808

@[inherit_doc minInt] def maxInt : Int := 9223372036854775807

@[inherit_doc minInt] def maxNat : Int := 18446744073709551615

/-- Whether an integer has 64 bits, signed or unsigned. -/
def fitsWord (n : Int) : Bool := decide (minInt ≤ n ∧ n ≤ maxNat)

end Value

/-! ## Decimal numerals -/

/-- The value of a decimal digit. -/
def digitValue (c : Char) : Nat := c.toNat - '0'.toNat

/-- The number a sequence of decimal digits writes. -/
def decimalValue (digits : Text) : Nat := digits.foldl (fun n c => 10 * n + digitValue c) 0

/-- The value of a hexadecimal digit. -/
def hexValue? (c : Char) : Option Nat :=
  if c.isDigit then some (c.toNat - '0'.toNat)
  else if 'a' ≤ c ∧ c ≤ 'f' then some (c.toNat - 'a'.toNat + 10)
  else if 'A' ≤ c ∧ c ≤ 'F' then some (c.toNat - 'A'.toNat + 10)
  else none

/-- The number a sequence of hexadecimal digits writes. -/
def hexNumber? (digits : Text) : Option Nat :=
  digits.foldl (fun n c => do return 16 * (← n) + (← hexValue? c)) (some 0)

/-- The character of a code point, unless the code point is a surrogate or too large. -/
def charOfCode? (n : Nat) : Option Char := if n.isValidChar then some (Char.ofNat n) else none

end YamlStyle
