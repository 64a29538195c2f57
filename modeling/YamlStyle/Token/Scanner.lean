import YamlStyle.Line
import YamlStyle.Token

/-!
# The YAML scanner

A tokenizer for the surface of YAML: indicators, comments, document markers, scalars and flow
brackets. It does not parse. It looks at one character, decides by it which **shape** of token starts
here, and asks the shape how far the token reaches. Three things make a scan stop: a quoted scalar
without an end, and a closing bracket that closes nothing or the wrong thing. A document that ends
inside a flow collection is reported too, but only after everything has been scanned.

Each shape is a function that *counts*: given the characters after the first one, it says how many of
them belong to the token. The scanner then takes that many and drops that many, so that no character
can be lost or seen twice whatever a shape answers, and every step consumes at least the first
character.

The scanner remembers four things besides what is left: where it is, where the current line starts,
how many spaces that line begins with (a block scalar's body must be indented deeper), and the stack
of open flow collections.
-/

set_option autoImplicit false

namespace YamlStyle

namespace Scanner

/-! ## Character tests -/

/-- The characters that structure a flow collection. -/
def isFlowIndicator (c : Char) : Bool :=
  c == ',' || c == '[' || c == ']' || c == '\x7b' || c == '\x7d'

/-- Whether a text begins with a blank or a break, or is empty. An indicator counts as one only if
what follows it is separated. -/
def isSeparated : Text → Bool
  | [] => true
  | c :: _ => isBlank c || isBreak c

/-- Whether a colon followed by this text ends a key. Inside a flow collection a flow indicator
separates as well as a blank. -/
def endsKey (inFlow : Bool) (rest : Text) : Bool :=
  isSeparated rest || (inFlow && (rest.head?.map isFlowIndicator).getD false)

/-! ## Shapes

Each counts the characters that belong to a token, given those after its first one. -/

/-- A comment or a directive reaches to the end of its line. -/
def lineLength (rest : Text) : Nat := (lineContent rest).length

/-- The name of an anchor, alias or tag reaches to a blank, a break or a flow indicator. -/
def nameLength (rest : Text) : Nat :=
  (rest.takeWhile fun c => !(isBlank c || isBreak c || isFlowIndicator c)).length

/-- A single-quoted scalar reaches to the first quote that is not doubled. -/
def singleQuotedLength? : Text → Option Nat
  | [] => none
  | '\'' :: '\'' :: rest => (singleQuotedLength? rest).map (· + 2)
  | '\'' :: _ => some 1
  | _ :: rest => (singleQuotedLength? rest).map (· + 1)

/-- A double-quoted scalar reaches to the first quote that no backslash stands before. A backslash
takes the character after it along, whatever it is. -/
def doubleQuotedLength? : Text → Option Nat
  | [] => none
  | '\\' :: [] => none
  | '\\' :: _ :: rest => (doubleQuotedLength? rest).map (· + 2)
  | '"' :: _ => some 1
  | _ :: rest => (doubleQuotedLength? rest).map (· + 1)

/-- The characters after the opening quote, the closing quote included. -/
def quotedLength? : Quote → Text → Option Nat
  | .single => singleQuotedLength?
  | .double => doubleQuotedLength?

/-- Whether a line holds nothing but spaces. -/
def isHollow (line : Line) : Bool := leadingSpaces line.content == line.content.length

/-- The body of a block scalar: how far it reaches into the lines below its header. A line belongs to
the body if it is indented deeper than `indent`; a line of spaces belongs to it only if such a line
follows. The body stops before the ending of its last line, so `pending`, the length of the ending
above, is counted together with the line below it. -/
def bodyLength (indent pending : Nat) : List Line → Nat
  | [] => 0
  | line :: below =>
    let upTo := pending + line.content.length
    if isHollow line then
      match bodyLength indent line.ending.text.length below with
      | 0 => 0
      | n + 1 => upTo + (n + 1)
    else if indent < leadingSpaces line.content then
      upTo + bodyLength indent line.ending.text.length below
    else 0

/-- A block scalar is its header line and its body. -/
def blockLength (indent : Nat) (rest : Text) : Nat :=
  let (ending, below) := Ending.split (lineRest rest)
  lineLength rest + bodyLength indent ending.text.length (lines below)

/-- Whether a plain scalar stops before `c`, given the character before it and the text after it. -/
def stopsPlain (inFlow : Bool) (previous c : Char) (rest : Text) : Bool :=
  isBreak c
    || (c == ':' && endsKey inFlow rest)
    || (inFlow && isFlowIndicator c)
    || (c == '#' && isBlank previous)

/-- A plain scalar reaches to the last character before its stop that is not a blank. -/
def plainLength (inFlow : Bool) (previous : Char) : Text → Nat
  | [] => 0
  | c :: rest =>
    if stopsPlain inFlow previous c rest then 0
    else
      match plainLength inFlow c rest with
      | 0 => if isBlank c then 0 else 1
      | n + 1 => n + 2

/-! ## State -/

/-- What a scan remembers besides the text that is left. -/
structure State where
  /-- Byte offset of the text that is left. -/
  pos : Nat
  /-- Byte offset where the current line starts. -/
  lineStart : Nat
  /-- Number of spaces the current line begins with. -/
  indent : Nat
  /-- The open flow collections and where each was opened, the innermost first. -/
  flow : List (Bracket × Nat)
  deriving DecidableEq, Repr

namespace State

/-- The state before the first character. -/
def initial (text : Text) : State := ⟨0, 0, leadingSpaces text, []⟩

/-- Whether a flow collection is open. -/
def inFlow (s : State) : Bool := !s.flow.isEmpty

/-- Whether the next character is the first of its line. -/
def atLineStart (s : State) : Bool := s.pos == s.lineStart

end State

/-- Divide a text after its last break. -/
def lastLine? : Text → Option (Text × Text)
  | [] => none
  | c :: cs =>
    match lastLine? cs with
    | some (front, last) => some (c :: front, last)
    | none => if isBreak c then some ([c], cs) else none

/-- Move past the characters of `lexeme`, leaving `rest`. A lexeme that holds a break moves the start
of the current line, too. -/
def State.advance (s : State) (lexeme rest : Text) : State :=
  match lastLine? lexeme with
  | none => { s with pos := s.pos + width lexeme }
  | some (front, last) =>
    { s with
      pos := s.pos + width lexeme
      lineStart := s.pos + width front
      indent := leadingSpaces (last ++ rest) }

/-- Keep the stack of flow collections in step with a token that starts here. -/
def State.track (s : State) : TokenKind → State
  | .flowSequenceStart => { s with flow := (.square, s.pos) :: s.flow }
  | .flowMappingStart => { s with flow := (.curly, s.pos) :: s.flow }
  | .flowSequenceEnd | .flowMappingEnd => { s with flow := s.flow.tail }
  | _ => s

/-! ## Steps -/

/-- What stands at a place of the text, and how many characters it takes after its first one. -/
inductive Lexeme where
  /-- Blanks, or a line ending. -/
  | layout (length : Nat)
  /-- A token. -/
  | token (kind : TokenKind) (length : Nat)
  deriving DecidableEq, Repr

/-- The characters of a lexeme after its first one. -/
def Lexeme.length : Lexeme → Nat
  | .layout n => n
  | .token _ n => n

/-- Whether `c` and the text after it spell the document marker made of `mark`. -/
def isMarker (mark c : Char) (rest : Text) : Bool :=
  match rest with
  | d :: e :: tail => c == mark && d == mark && e == mark && isSeparated tail
  | _ => false

/-- A closing bracket has to close the innermost open collection. -/
def closeFlow (s : State) (bracket : Bracket) : Except ScanFault Lexeme :=
  match s.flow with
  | [] => .error (.unexpected bracket)
  | (opened, _) :: _ =>
    if opened = bracket then .ok (.token bracket.closeKind 0)
    else .error (.mismatched opened bracket)

/-- A quoted scalar has to end. -/
def quotedScalar (quote : Quote) (rest : Text) : Except ScanFault Lexeme :=
  match quotedLength? quote rest with
  | some n => .ok (.token .scalar n)
  | none => .error (.unterminated quote)

/-- What starts at the character `c`, with `rest` after it. Whatever nothing else claims is a plain
scalar. -/
def lexeme (s : State) (c : Char) (rest : Text) : Except ScanFault Lexeme :=
  if isBlank c then .ok (.layout (rest.takeWhile isBlank).length)
  else if isBreak c then
    .ok (.layout (if c == '\r' && rest.head? == some '\n' then 1 else 0))
  else if c == '#' then .ok (.token .comment (lineLength rest))
  else if s.atLineStart && isMarker '-' c rest then .ok (.token .documentStart 2)
  else if s.atLineStart && isMarker '.' c rest then .ok (.token .documentEnd 2)
  else if s.atLineStart && c == '%' then .ok (.token .directive (lineLength rest))
  else if c == '-' && !s.inFlow && isSeparated rest then .ok (.token .blockEntry 0)
  else if c == '?' && isSeparated rest then .ok (.token .key 0)
  else if c == ':' && endsKey s.inFlow rest then .ok (.token .value 0)
  else if let some bracket := Bracket.ofOpening? c then .ok (.token bracket.openKind 0)
  else if let some bracket := Bracket.ofClosing? c then closeFlow s bracket
  else if c == ',' && s.inFlow then .ok (.token .flowEntry 0)
  else if c == '&' then .ok (.token .anchor (nameLength rest))
  else if c == '*' then .ok (.token .aliasNode (nameLength rest))
  else if c == '!' then .ok (.token .tag (nameLength rest))
  else if let some quote := Quote.ofChar? c then quotedScalar quote rest
  else if (c == '|' || c == '>') && !s.inFlow then
    .ok (.token .blockScalar (blockLength s.indent rest))
  else .ok (.token .scalar (plainLength s.inFlow c rest))

/-- The fault of a document that ends in this state, if it is one. -/
def endError (s : State) : Option ScanError :=
  s.flow.head?.map fun (bracket, offset) => ⟨offset, .unclosed bracket⟩

/-- Put a token in front of a scan. -/
def consToken (s : State) (lexeme : Lexeme) (next : State) (scan : Scan) : Scan :=
  match lexeme with
  | .layout _ => scan
  | .token kind _ => { scan with tokens := ⟨kind, s.pos, next.pos⟩ :: scan.tokens }

/-- The state after a lexeme. -/
def State.after (s : State) (lexeme : Lexeme) (taken rest : Text) : State :=
  match lexeme with
  | .layout _ => s.advance taken rest
  | .token kind _ => (s.track kind).advance taken rest

/-- Scan `text` from a given state on. -/
def run (s : State) : Text → Scan
  | [] => ⟨[], endError s⟩
  | c :: rest =>
    match lexeme s c rest with
    | .error fault => ⟨[], some ⟨s.pos, fault⟩⟩
    | .ok found =>
      let next := s.after found (c :: rest.take found.length) (rest.drop found.length)
      consToken s found next (run next (rest.drop found.length))
termination_by text => text.length
decreasing_by rw [List.length_drop, List.length_cons]; omega

end Scanner

/-- The tokenizer for YAML. -/
def yamlScanner : Tokenizer := fun text => Scanner.run (Scanner.State.initial text) text

end YamlStyle
