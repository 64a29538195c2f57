import YamlStyle.Glob

/-!
# How deep a pattern is nested

Patterns are matched as regular expressions, and such an expression may be nested 250 levels deep. A
level is a sequence of several items, a group, a choice between several alternatives, a repetition, or
a class; the levels of an item inside another add up. The wildcards for directories are groups of
their own and count accordingly.

A pattern that is nested too deep is shown as the expression it stands for.
-/

set_option autoImplicit false

namespace YamlStyle

namespace Glob

/-! ## Levels -/

/-- The greatest number of levels. -/
def maxDepth : Nat := 250

/-- The levels of a sequence of items with the given levels. A single item is no sequence. -/
def sequenceDepth : List Nat → Nat
  | [] => 0
  | [d] => d
  | ds => 1 + ds.foldl max 0

/-- The levels of a class. A class of one range needs no list of ranges. -/
def classDepth (ranges : List (Char × Char)) : Nat :=
  if (ranges.flatMap classBytes).length ≤ 1 then 1 else 2

mutual

/-- The levels of each item that a token stands for. -/
def Token.depths : Token → List Nat
  | .literal c => (String.utf8EncodeChar c).map fun _ => 0
  | .any => [0]
  | .star => [1]
  | .anyDirectories => [4]
  | .anyBelow => [0, 1]
  | .anyBetween => [4]
  | .oneOf _ ranges => [classDepth ranges]
  | .alternates branches =>
    match branchDepths branches with
    | [] => []
    | [d] => [1 + d]
    | ds => [2 + ds.foldl max 0]

/-- The levels of each alternative that says something. -/
def branchDepths : List (List Token) → List Nat
  | [] => []
  | branch :: rest =>
    if isVoidPattern branch then branchDepths rest
    else sequenceDepth (itemDepths branch) :: branchDepths rest

/-- The levels of each item that a pattern stands for. -/
def itemDepths : List Token → List Nat
  | [] => []
  | t :: rest => t.depths ++ itemDepths rest

end

/-- The levels of a pattern, which is a sequence between two ends. -/
def depth (pattern : Pattern) : Nat := 1 + (itemDepths pattern).foldl max 0

/-- Whether a pattern is nested too deep. -/
def isTooDeep (pattern : Pattern) : Bool := decide (maxDepth < depth pattern)

/-! ## Expressions -/

/-- The characters that do not stand for themselves in an expression. -/
def isSpecial (c : Char) : Bool := "\\.+*?()|[]\x7b\x7d^$#&-~".toList.contains c

/-- Two hexadecimal digits. -/
def hexByte (b : UInt8) : Text :=
  if b.toNat < 16 then '0' :: Nat.toDigits 16 b.toNat else Nat.toDigits 16 b.toNat

/-- A character as an expression. Characters outside ASCII are written byte by byte. -/
def literalExpression (c : Char) : Text :=
  if c.toNat < 0x80 then if isSpecial c then ['\\', c] else [c]
  else (String.utf8EncodeChar c).flatMap fun b => '\\' :: 'x' :: hexByte b

/-- A range of characters as part of a class. -/
def rangeExpression (range : Char × Char) : Text :=
  if range.1 = range.2 then literalExpression range.1
  else literalExpression range.1 ++ '-' :: literalExpression range.2

mutual

/-- A token as an expression. -/
def Token.expression : Token → Text
  | .literal c => literalExpression c
  | .any => ['.']
  | .star => ['.', '*']
  | .anyDirectories => "(?:/?|.*/)".toList
  | .anyBelow => "/.*".toList
  | .anyBetween => "(?:/|/.*/)".toList
  | .oneOf negated ranges =>
    '[' :: (if negated then ['^'] else []) ++ ranges.flatMap rangeExpression ++ [']']
  | .alternates branches =>
    match branchExpressions branches with
    | [] => []
    | parts => "(?:".toList ++ List.intercalate ['|'] parts ++ [')']

/-- The alternatives that say something, as expressions. -/
def branchExpressions : List (List Token) → List Text
  | [] => []
  | branch :: rest =>
    if isVoidPattern branch then branchExpressions rest
    else itemsExpression branch :: branchExpressions rest

/-- A sequence of tokens as an expression. -/
def itemsExpression : List Token → Text
  | [] => []
  | t :: rest => t.expression ++ itemsExpression rest

end

/-- A pattern as an expression for a whole path. -/
def expression (pattern : Pattern) : String :=
  String.ofList ("(?-u)^".toList ++ itemsExpression pattern ++ ['$'])

end Glob

end YamlStyle
