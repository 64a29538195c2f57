import YamlStyle.Text

/-!
# Glob patterns

A pattern is a sequence of tokens, and matches a path if the tokens, one after the other, use up the
path exactly. Paths are matched as **bytes**: `?` takes one byte, and a class of characters outside
ASCII is a class of the bytes they are made of.

Matching is by residuals. The residuals of a token on a path are all the ways to go on after the
token has taken its share from the front; a pattern matches if going through all of its tokens can
leave nothing. Every residual is a tail of the path, so there are never more of them than the path
has bytes.
-/

set_option autoImplicit false

namespace YamlStyle

/-- The bytes of a path. -/
abbrev Bytes := List UInt8

/-- The UTF-8 encoding of a text. -/
def encodeText (text : Text) : Bytes := text.flatMap String.utf8EncodeChar

namespace Glob

/-- A part of a pattern. -/
inductive Token where
  /-- This character. -/
  | literal (c : Char)
  /-- Any byte. -/
  | any
  /-- Any number of bytes. -/
  | star
  /-- Nothing, a slash, or anything up to a slash. -/
  | anyDirectories
  /-- A slash and anything after it. -/
  | anyBelow
  /-- A slash, or anything between two slashes. -/
  | anyBetween
  /-- One byte out of a class, or one outside it. -/
  | oneOf (negated : Bool) (ranges : List (Char × Char))
  /-- One of several patterns. -/
  | alternates (branches : List (List Token))
  deriving Repr, Inhabited

/-- A pattern. -/
abbrev Pattern := List Token

/-! ## Taking bytes from the front of a path -/

/-- The slash that divides the parts of a path. -/
def slash : UInt8 := 47

/-- Take these bytes. -/
def takeBytes (bytes path : Bytes) : List Bytes :=
  if bytes.isPrefixOf path then [path.drop bytes.length] else []

/-- Take any number of bytes. -/
def takeAny : Bytes → List Bytes
  | [] => [[]]
  | b :: rest => (b :: rest) :: takeAny rest

/-- Take bytes up to a slash, and the slash. -/
def takeThroughSlash : Bytes → List Bytes
  | [] => []
  | b :: rest => if b = slash then rest :: takeThroughSlash rest else takeThroughSlash rest

/-- The bytes of a class, as ranges. A range of characters becomes the range from the last byte of
the first one to the first byte of the last one; their other bytes are in the class one by one. -/
def classBytes (range : Char × Char) : List (UInt8 × UInt8) :=
  let first := String.utf8EncodeChar range.1
  let last := String.utf8EncodeChar range.2
  if range.1 = range.2 then first.map fun b => (b, b)
  else
    first.dropLast.map (fun b => (b, b)) ++ [(first.getLastD 0, last.headD 0)]
      ++ last.tail.map fun b => (b, b)

/-- Whether a byte is in a class. -/
def inClass (ranges : List (Char × Char)) (b : UInt8) : Bool :=
  (ranges.flatMap classBytes).any fun (lo, hi) => decide (lo ≤ b) && decide (b ≤ hi)

/-- Take one byte that satisfies a test. -/
def takeOne (test : UInt8 → Bool) : Bytes → List Bytes
  | [] => []
  | b :: rest => if test b then [rest] else []

/-! ## Matching -/

mutual

/-- Whether a token says nothing at all: a group of which no alternative says anything. -/
def Token.isVoid : Token → Bool
  | .alternates branches => allVoid branches
  | _ => false

/-- Whether none of several patterns says anything. -/
def allVoid : List (List Token) → Bool
  | [] => true
  | branch :: rest => isVoidPattern branch && allVoid rest

/-- Whether a pattern says nothing. -/
def isVoidPattern : List Token → Bool
  | [] => true
  | t :: rest => t.isVoid && isVoidPattern rest

end

mutual

/-- What can be left of a path after a token. -/
def Token.residuals (path : Bytes) : Token → List Bytes
  | .literal c => takeBytes (String.utf8EncodeChar c) path
  | .any => takeOne (fun _ => true) path
  | .star => takeAny path
  | .anyDirectories => path :: takeBytes [slash] path ++ takeThroughSlash path
  | .anyBelow => (takeBytes [slash] path).flatMap takeAny
  | .anyBetween => (takeBytes [slash] path).flatMap fun rest => rest :: takeThroughSlash rest
  | .oneOf negated ranges => takeOne (fun b => inClass ranges b != negated) path
  | .alternates branches =>
    if allVoid branches then [path] else branchResiduals path branches

/-- What can be left of a path after one of several patterns. Alternatives that say nothing do not
count. -/
def branchResiduals (path : Bytes) : List (List Token) → List Bytes
  | [] => []
  | branch :: rest =>
    if isVoidPattern branch then branchResiduals path rest
    else patternResiduals [path] branch ++ branchResiduals path rest

/-- What can be left of some paths after all tokens of a pattern. -/
def patternResiduals (paths : List Bytes) : List Token → List Bytes
  | [] => paths
  | t :: rest => patternResiduals (paths.flatMap fun path => t.residuals path).eraseDups rest

end

/-- Whether a pattern is nothing but a wildcard for directories, which stands for every path. -/
def isEverything : Pattern → Bool
  | [.anyDirectories] => true
  | _ => false

/-- Whether a pattern matches a path. -/
def matchesBytes (pattern : Pattern) (path : Bytes) : Bool :=
  isEverything pattern || (patternResiduals [path] pattern).contains []

end Glob

end YamlStyle
