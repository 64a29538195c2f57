import YamlStyle.Glob

/-!
# Reading glob patterns

A pattern is read character by character. Groups in braces may be nested, so the reader keeps a stack
of the groups that are open; inside a group a comma starts the next alternative.

A double star is a wildcard for directories only where it fills the whole place between two slashes
(or an end of the pattern, or of the alternative it stands in), and swallows the slashes around it.
Everywhere else it is a star like any other.
-/

set_option autoImplicit false

namespace YamlStyle

namespace Glob

/-- Why a pattern cannot be read. -/
inductive ParseError where
  | unclosedClass
  | invalidRange (first last : Char)
  | unopenedGroup
  | unclosedGroup
  | danglingEscape
  deriving DecidableEq, Repr

/-- The wording of an error. -/
def ParseError.message : ParseError → String
  | .unclosedClass => "unclosed character class; missing ']'"
  | .invalidRange first last => s!"invalid range; '{first}' > '{last}'"
  | .unopenedGroup =>
    "unopened alternate group; missing '\x7b' (maybe escape '\x7d' with '[\x7d]'?)"
  | .unclosedGroup =>
    "unclosed alternate group; missing '\x7d' (maybe escape '\x7b' with '[\x7b]'?)"
  | .danglingEscape => "dangling '\\'"

/-- A class that is being read. -/
structure ClassState where
  negated : Bool
  /-- Whether nothing but the negation has been read. -/
  isFirst : Bool
  /-- Whether a dash waits for the end of its range. -/
  inRange : Bool
  /-- The ranges read, the last one first. -/
  ranges : List (Char × Char)
  deriving Repr

/-- What the reader is in the middle of. -/
inductive Mode where
  | text
  /-- Behind a backslash. -/
  | escape
  /-- Right behind an opening bracket. -/
  | classOpening
  /-- Inside a class. -/
  | inClass (state : ClassState)
  deriving Repr

/-- Tokens that are being collected, the last one first. -/
abbrev Branch := List Token

/-- The state of the reader. -/
structure Parser where
  mode : Mode
  /-- The character read last. -/
  previous : Option Char
  /-- The pattern or alternative that is being read. -/
  current : Branch
  /-- The open groups, the innermost first: the alternatives of the group that are complete (the last
  one first), and the pattern around the group. -/
  groups : List (List Pattern × Branch)
  deriving Repr

namespace Parser

/-- The reader before the first character. -/
def start : Parser := ⟨.text, none, [], []⟩

/-- Add a token. -/
def push (p : Parser) (t : Token) : Parser := { p with current := t :: p.current }

/-- Remember the last character. -/
def saw (p : Parser) (c : Char) : Parser := { p with previous := some c }

/-- Whether a group is open. -/
def inGroup (p : Parser) : Bool := !p.groups.isEmpty

/-- Open a group. -/
def openGroup (p : Parser) : Parser :=
  { p with current := [], groups := ([], p.current) :: p.groups }

/-- A comma: the next alternative inside a group, itself elsewhere. -/
def comma (p : Parser) : Parser :=
  match p.groups with
  | [] => p.push (.literal ',')
  | (done, around) :: outer =>
    { p with current := [], groups := (p.current.reverse :: done, around) :: outer }

/-- Close a group. -/
def closeGroup (p : Parser) : Except ParseError Parser :=
  match p.groups with
  | [] => .error .unopenedGroup
  | (done, around) :: outer =>
    .ok { p with
      current := .alternates (p.current.reverse :: done).reverse :: around
      groups := outer }

/-- Whether a double star stands at the beginning of a part of a path, with something before it. -/
def startsPart (p : Parser) : Bool :=
  p.previous == some '/'
    || (p.inGroup && (p.previous == some ',' || p.previous == some '\x7b'))

/-- Put a wildcard for directories in the place of the last token. A wildcard that is there already
stays. -/
def widen (p : Parser) (t : Token) : Parser :=
  match p.current with
  | .anyDirectories :: _ => p
  | .anyBelow :: _ => p
  | _ :: before => { p with current := t :: before }
  | [] => p.push t

/-- A double star, and whether it swallows the slash behind it. `next` is the character behind it. -/
def doubleStar (p : Parser) (next : Option Char) : Parser × Bool :=
  if p.current.isEmpty then
    match next with
    | none => (p.push .anyDirectories, false)
    | some '/' => (p.push .anyDirectories, true)
    | some _ => (p.push .star, false)
  else if p.startsPart then
    match next with
    | none => (p.widen .anyBelow, false)
    | some '/' => (p.widen .anyBetween, true)
    | some c =>
      if p.inGroup && (c == ',' || c == '\x7d') then (p.widen .anyBelow, false)
      else (p.push .star, false)
  else (p.push .star, false)

/-- One more character of a class, or nothing at its end. -/
def classStep (s : ClassState) (c : Char) : Except ParseError (Option ClassState) :=
  let s' := { s with isFirst := false }
  let endRange : Except ParseError (Option ClassState) :=
    match s.ranges with
    | (first, _) :: rest =>
      if c < first then .error (.invalidRange first c)
      else .ok (some { s' with inRange := false, ranges := (first, c) :: rest })
    | [] => .ok (some { s' with inRange := false, ranges := [(c, c)] })
  if c == ']' && !s.isFirst then .ok none
  else if c == '-' && !s.isFirst && !s.inRange then .ok (some { s' with inRange := true })
  else if s.inRange then endRange
  else .ok (some { s' with ranges := (c, c) :: s.ranges })

/-- The token of a class that has been read. A dash at the end stands for itself. -/
def classToken (s : ClassState) : Token :=
  .oneOf s.negated (if s.inRange then ('-', '-') :: s.ranges else s.ranges).reverse

/-- One more character of a class, as a step of the reader. -/
def stepClass (p : Parser) (s : ClassState) (c : Char) : Except ParseError Parser :=
  match classStep s c with
  | .error e => .error e
  | .ok none => .ok { p.push (classToken s) with mode := .text }
  | .ok (some s) => .ok { p with mode := .inClass s }

/-- One more character, unless it is a star of the text. -/
def step (p : Parser) (c : Char) : Except ParseError Parser :=
  match p.mode with
  | .escape => .ok { p.push (.literal c) with mode := .text }
  | .classOpening =>
    if c == '!' || c == '^' then .ok { p with mode := .inClass ⟨true, true, false, []⟩ }
    else p.stepClass ⟨false, true, false, []⟩ c
  | .inClass s => p.stepClass s c
  | .text =>
    match c with
    | '?' => .ok (p.push .any)
    | '[' => .ok { p with mode := .classOpening }
    | '\x7b' => .ok p.openGroup
    | '\x7d' => p.closeGroup
    | ',' => .ok p.comma
    | '\\' => .ok { p with mode := .escape }
    | c => .ok (p.push (.literal c))

/-- The pattern that has been read, at the end of the text. -/
def finish (p : Parser) : Except ParseError Pattern :=
  match p.mode with
  | .escape => .error .danglingEscape
  | .classOpening | .inClass _ => .error .unclosedClass
  | .text => if p.inGroup then .error .unclosedGroup else .ok p.current.reverse

/-- Whether the reader is outside classes and escapes. -/
def inText (p : Parser) : Bool :=
  match p.mode with
  | .text => true
  | _ => false

/-- Read a text to its end. -/
def run (p : Parser) : Text → Except ParseError Pattern
  | [] => p.finish
  | c :: rest =>
    if p.inText && c == '*' then
      match rest with
      | '*' :: '/' :: rest =>
        let (q, swallowed) := p.doubleStar (some '/')
        if swallowed then run (q.saw '/') rest else run ((q.push (.literal '/')).saw '/') rest
      | '*' :: rest => run ((p.doubleStar rest.head?).1.saw '*') rest
      | rest => run ((p.push .star).saw '*') rest
    else
      match p.step c with
      | .ok q => run (q.saw c) rest
      | .error e => .error e

end Parser

/-- Read a pattern. -/
def parse (pattern : String) : Except ParseError Pattern := Parser.start.run pattern.toList

end Glob

end YamlStyle
