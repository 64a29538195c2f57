import YamlStyle.Glob.Depth
import YamlStyle.Glob.Kind
import YamlStyle.Glob.Parse

/-!
# Ignore lists

A list of patterns; a path that matches one of them is not linted. One `./` at the head of a path is
dropped before it is compared.

A list is refused at the first pattern that cannot be read. If all can be read, it is still refused if
one of them is nested too deep. Patterns that ask for an extension first are compiled one by one, and
such a pattern is then shown as an expression; the others are compiled together, and of them only the
number is known.
-/

set_option autoImplicit false

namespace YamlStyle

/-- Why there is no ignore list. -/
inductive IgnoreError where
  /-- A pattern cannot be read. -/
  | unreadable (pattern : String) (cause : Glob.ParseError)
  /-- A pattern that asks for an extension first is nested too deep. -/
  | deepExpression (patterns : List String) (expression : String)
  /-- A pattern is nested too deep, the one with this number among those compiled together. -/
  | deepPattern (patterns : List String) (number : Nat)
  deriving DecidableEq, Repr

namespace IgnoreError

/-- What the error is about. -/
def subject : IgnoreError → String
  | .unreadable pattern _ => pattern
  | .deepExpression patterns _ => ", ".intercalate patterns
  | .deepPattern patterns _ => ", ".intercalate patterns

/-- What the pattern reader has to say. -/
def causeMessage : IgnoreError → String
  | .unreadable pattern cause => s!"error parsing glob '{pattern}': {cause.message}"
  | .deepExpression _ expression => s!"error parsing glob '{expression}': error parsing pattern 0"
  | .deepPattern _ number => s!"error parsing pattern {number}"

/-- The wording of an error. -/
def message (e : IgnoreError) : String := s!"invalid ignore pattern '{e.subject}': {e.causeMessage}"

end IgnoreError

/-- The patterns of an ignore list. -/
structure IgnoreList where
  patterns : List Glob.Pattern
  deriving Repr

namespace IgnoreList

/-- Read patterns in order, up to the first that cannot be read. -/
def parsePatterns : List String → Except IgnoreError (List Glob.Pattern)
  | [] => .ok []
  | p :: rest =>
    match Glob.parse p with
    | .error cause => .error (.unreadable p cause)
    | .ok pattern => (parsePatterns rest).map (pattern :: ·)

/-- The first pattern that asks for an extension first and is nested too deep. -/
def deepExpression? (patterns : List Glob.Pattern) : Option Glob.Pattern :=
  patterns.find? fun p => Glob.kind p == .extensionFirst && Glob.isTooDeep p

/-- The number of the first pattern that is nested too deep, among those compiled together. -/
def deepPattern? (patterns : List Glob.Pattern) : Option Nat :=
  (patterns.filter fun p => Glob.kind p == .expression).findIdx? Glob.isTooDeep

/-- The ignore list of some patterns. -/
def ofPatterns (patterns : List String) : Except IgnoreError IgnoreList :=
  match parsePatterns patterns with
  | .error e => .error e
  | .ok parsed =>
    match deepExpression? parsed, deepPattern? parsed with
    | some p, _ => .error (.deepExpression patterns (Glob.expression p))
    | none, some number => .error (.deepPattern patterns number)
    | none, none => .ok ⟨parsed⟩

/-- A path without one leading `./`. -/
def normalize : Text → Text
  | '.' :: '/' :: rest => rest
  | path => path

/-- Whether a path is on the list. -/
def isIgnored (list : IgnoreList) (path : String) : Bool :=
  let bytes := encodeText (normalize path.toList)
  list.patterns.any (Glob.matchesPath · bytes)

end IgnoreList

end YamlStyle
