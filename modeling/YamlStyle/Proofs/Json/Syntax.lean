import YamlStyle.Token
import YamlStyle.Value.Json

/-!
# JSON documents as they are written

A JSON value can be written in many ways: with blanks between the tokens or without, with characters
of a string escaped or not, with numerals of any length. Here a document is a tree that keeps all of
this, so that there is one tree for every text and not one for every value. The parts that have rules
of their own, the gaps, the digits and the characters of strings, carry these rules as proofs.

Read from left to right, a tree is a sequence of **tiles**: brackets, commas, colons, literals and the
gaps between them. The text of a document is all of its tiles, and its structure is the tiles that are
no gaps.
-/

set_option autoImplicit false

namespace YamlStyle

namespace Json

/-! ## Literals -/

abbrev Gap := { text : Text // text.all isSpace = true }

abbrev Digit := { c : Char // c.isDigit = true }

abbrev HexDigit := { c : Char // (hexValue? c).isSome = true }

/-- One character of a string, as it is or by an escape. -/
inductive StringUnit where
  | plain (c : Char) (h : 0x20 ≤ c.toNat ∧ c ≠ '"' ∧ c ≠ '\\')
  | short (c : Char) (h : (shortEscape? c).isSome = true)
  | code (first second third fourth : HexDigit)

def StringUnit.text : StringUnit → Text
  | .plain c _ => [c]
  | .short c _ => ['\\', c]
  | .code first second third fourth => ['\\', 'u', first, second, third, fourth]

/-- A digit, and then any number of them. -/
structure Digits where
  first : Digit
  more : List Digit

def Digits.text (digits : Digits) : Text := digits.first :: digits.more.map (·.val)

inductive Sign where
  | plus
  | minus

def Sign.text : Sign → Text
  | .plus => ['+']
  | .minus => ['-']

structure Exponent where
  capital : Bool
  sign : Option Sign
  digits : Digits

def Exponent.text (e : Exponent) : Text :=
  (if e.capital then 'E' else 'e') :: ((e.sign.map Sign.text).getD [] ++ e.digits.text)

/-- A number as it is written. A zero in front stands alone. -/
structure Numeral where
  negative : Bool
  whole : Digits
  fraction : Option Digits
  exponent : Option Exponent
  no_leading_zero : whole.first.val = '0' → whole.more = []

def Numeral.text (n : Numeral) : Text :=
  (if n.negative then ['-'] else []) ++ n.whole.text ++
    (n.fraction.map fun digits => '.' :: digits.text).getD [] ++
    (n.exponent.map Exponent.text).getD []

/-- What is no collection. -/
inductive Literal where
  | string (units : List StringUnit)
  | number (n : Numeral)
  | bool (b : Bool)
  | null

def Literal.text : Literal → Text
  | .string units => '"' :: (units.flatMap StringUnit.text ++ ['"'])
  | .number n => n.text
  | .bool true => "true".toList
  | .bool false => "false".toList
  | .null => "null".toList

/-! ## Trees -/

mutual

/-- A value as it is written. -/
inductive Node where
  | literal (l : Literal)
  | empty (bracket : Bracket) (gap : Gap)
  | filled (bracket : Bracket) (entries : Entries bracket)

/-- What stands between two commas: a value, or a name, a colon and a value. -/
inductive Entry : Bracket → Type where
  | item (value : Node) : Entry .square
  | member (name : List StringUnit) (before after : Gap) (value : Node) : Entry .curly

/-- The entries of a collection and the commas between them. -/
inductive Entries : Bracket → Type where
  | last {bracket : Bracket} (before : Gap) (entry : Entry bracket) (after : Gap) : Entries bracket
  | more {bracket : Bracket} (before : Gap) (entry : Entry bracket) (after : Gap)
      (rest : Entries bracket) : Entries bracket

end

structure Document where
  before : Gap
  node : Node
  after : Gap

/-! ## Tiles -/

/-- The parts of a document that stand one after the other. -/
inductive Tile where
  | gap (g : Gap)
  | opening (bracket : Bracket)
  | closing (bracket : Bracket)
  | comma
  | colon
  | literal (l : Literal)

def Tile.text : Tile → Text
  | .gap g => g.val
  | .opening bracket => [bracket.opening]
  | .closing bracket => [bracket.closing]
  | .comma => [',']
  | .colon => [':']
  | .literal l => l.text

/-- The kind of token that a tile is, unless it is a gap. -/
def Tile.kind? : Tile → Option TokenKind
  | .gap _ => none
  | .opening bracket => some bracket.openKind
  | .closing bracket => some bracket.closeKind
  | .comma => some .flowEntry
  | .colon => some .value
  | .literal _ => some .scalar

mutual

def Node.tiles : Node → List Tile
  | .literal l => [.literal l]
  | .empty bracket gap => [.opening bracket, .gap gap, .closing bracket]
  | .filled bracket entries => .opening bracket :: (entries.tiles ++ [.closing bracket])

def Entry.tiles {bracket : Bracket} : Entry bracket → List Tile
  | .item value => value.tiles
  | .member name before after value =>
    .literal (.string name) :: .gap before :: .colon :: .gap after :: value.tiles

def Entries.tiles {bracket : Bracket} : Entries bracket → List Tile
  | .last before entry after => .gap before :: (entry.tiles ++ [.gap after])
  | .more before entry after rest => .gap before :: (entry.tiles ++ .gap after :: .comma :: rest.tiles)

end

def Document.tiles (d : Document) : List Tile := .gap d.before :: (d.node.tiles ++ [.gap d.after])

def textOf (tiles : List Tile) : Text := tiles.flatMap Tile.text

/-- The kinds and the texts of the tiles that are no gaps. -/
def piecesOf (tiles : List Tile) : List (TokenKind × Text) :=
  tiles.filterMap fun tile => tile.kind?.map (·, tile.text)

/-- Whether a blank or an opening bracket stands right behind every colon. -/
def isSpaced : List Tile → Bool
  | [] => true
  | .colon :: rest =>
    (textOf rest).head?.any (fun c => isSpace c || c == '[' || c == '\x7b') && isSpaced rest
  | _ :: rest => isSpaced rest

namespace Document

def text (d : Document) : Text := textOf d.tiles

def pieces (d : Document) : List (TokenKind × Text) := piecesOf d.tiles

def isSpaced (d : Document) : Bool := Json.isSpaced d.tiles

end Document

end Json

end YamlStyle
