import YamlStyle.Glob

/-!
# What a pattern is recognised by

Most patterns say little: a name at the end of a path, an extension, how the path starts or how it
ends. Such patterns are told apart here, because a path that ends in `..` has no name and no
extension, and is never matched by a pattern that asks for one. All other patterns, and all other
paths, are matched byte by byte.
-/

set_option autoImplicit false

namespace YamlStyle

namespace Glob

/-- What a pattern is recognised by. -/
inductive Kind where
  /-- The name at the end of the path. -/
  | name
  /-- The whole path. -/
  | literal
  /-- The extension, and nothing else. -/
  | extension
  /-- How the path starts. -/
  | start
  /-- How the path ends. -/
  | ending
  /-- The extension first, and then everything else. -/
  | extensionFirst
  /-- Nothing in particular. -/
  | expression
  deriving DecidableEq, Repr

/-- Whether a token is a character. -/
def Token.isLiteral : Token → Bool
  | .literal _ => true
  | _ => false

/-- Whether a token is a character that can be part of a name. -/
def Token.isNameChar : Token → Bool
  | .literal c => c != '/'
  | _ => false

/-- Whether a token is a character that can be part of an extension. -/
def Token.isExtensionChar : Token → Bool
  | .literal c => c != '/' && c != '.'
  | _ => false

/-- A pattern without a wildcard for directories at its head. -/
def belowDirectories : Pattern → Pattern
  | .anyDirectories :: rest => rest
  | pattern => pattern

/-- Whether a pattern asks for a name in any directory. -/
def asksName : Pattern → Bool
  | .anyDirectories :: rest => !rest.isEmpty && rest.all Token.isNameChar
  | _ => false

/-- Whether a pattern is a plain path. -/
def asksPath (pattern : Pattern) : Bool := !pattern.isEmpty && pattern.all Token.isLiteral

/-- Whether a pattern asks for an extension of any name. -/
def asksExtension (pattern : Pattern) : Bool :=
  match belowDirectories pattern with
  | .star :: .literal '.' :: rest => rest.all Token.isExtensionChar
  | _ => false

/-- Whether a pattern asks for the start of a path. -/
def asksStart (pattern : Pattern) : Bool :=
  match pattern.getLast? with
  | some .star => asksPath pattern.dropLast
  | some .anyBelow => pattern.dropLast.all Token.isLiteral
  | _ => false

/-- Whether a pattern asks for the end of a path. A slash alone is too little. -/
def asksEnding (pattern : Pattern) : Bool :=
  match belowDirectories pattern with
  | [] => false
  | .star :: [.literal '/'] => false
  | .star :: rest => asksPath rest
  | rest => asksPath rest

/-- Whether a pattern ends in an extension. -/
def endsInExtension (pattern : Pattern) : Bool :=
  match pattern.reverse.dropWhile Token.isExtensionChar with
  | .literal '.' :: _ => true
  | _ => false

/-- What a pattern is recognised by. -/
def kind (pattern : Pattern) : Kind :=
  if asksName pattern then .name
  else if asksPath pattern then .literal
  else if asksExtension pattern then .extension
  else if asksStart pattern then .start
  else if asksEnding pattern then .ending
  else if endsInExtension pattern then .extensionFirst
  else .expression

/-- Whether a pattern of this kind asks for the name of a path, or for its extension. -/
def Kind.looksAtName : Kind → Bool
  | .name | .extension | .extensionFirst => true
  | .literal | .start | .ending | .expression => false

/-- Whether the last name of a path is `..`. -/
def endsAbove (path : Bytes) : Bool := (path.reverse.takeWhile (· != slash)) == [46, 46]

/-- Whether a pattern matches a path. -/
def matchesPath (pattern : Pattern) (path : Bytes) : Bool :=
  !((kind pattern).looksAtName && endsAbove path) && matchesBytes pattern path

end Glob

end YamlStyle
