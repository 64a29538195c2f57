import YamlStyle.Text

/-!
# Tokens as a tokenizer reports them

A tokenizer reports **raw tokens**: a kind and a span of bytes, nothing else. Along with them it may
report one fault, the structural error that stopped it. Nothing is promised about the spans: they may
overlap, run backwards or miss character boundaries, and making a proper stream of them is the work
of `TokenStream.segment`.

The faults of the YAML scanner are listed by cause. A foreign tokenizer explains itself in its own
words, and `reported` carries them.
-/

set_option autoImplicit false

namespace YamlStyle

/-- What a token is. -/
inductive TokenKind where
  | streamStart
  | streamEnd
  | lineBreak
  | directive
  | documentStart
  | documentEnd
  | comment
  | blockEntry
  | key
  | value
  | flowEntry
  | flowSequenceStart
  | flowSequenceEnd
  | flowMappingStart
  | flowMappingEnd
  | anchor
  | aliasNode
  | tag
  | scalar
  | blockScalar
  deriving DecidableEq, Repr, Inhabited

namespace TokenKind

/-- The printed name of a kind. -/
def name : TokenKind → String
  | .streamStart => "StreamStart"
  | .streamEnd => "StreamEnd"
  | .lineBreak => "LineBreak"
  | .directive => "Directive"
  | .documentStart => "DocumentStart"
  | .documentEnd => "DocumentEnd"
  | .comment => "Comment"
  | .blockEntry => "BlockEntry"
  | .key => "Key"
  | .value => "Value"
  | .flowEntry => "FlowEntry"
  | .flowSequenceStart => "FlowSequenceStart"
  | .flowSequenceEnd => "FlowSequenceEnd"
  | .flowMappingStart => "FlowMappingStart"
  | .flowMappingEnd => "FlowMappingEnd"
  | .anchor => "Anchor"
  | .aliasNode => "Alias"
  | .tag => "Tag"
  | .scalar => "Scalar"
  | .blockScalar => "BlockScalar"

/-- Every kind. -/
def all : List TokenKind :=
  [.streamStart, .streamEnd, .lineBreak, .directive, .documentStart, .documentEnd, .comment,
    .blockEntry, .key, .value, .flowEntry, .flowSequenceStart, .flowSequenceEnd, .flowMappingStart,
    .flowMappingEnd, .anchor, .aliasNode, .tag, .scalar, .blockScalar]

/-- The kind of a printed name. -/
def ofName? (name : String) : Option TokenKind := all.find? (·.name == name)

/-- The kinds that mark the frame of a document and carry none of its content. -/
def isPseudo : TokenKind → Bool
  | .streamStart | .streamEnd | .lineBreak => true
  | _ => false

end TokenKind

/-- A token in the coordinates of a tokenizer: bytes `start` up to, but not including, `stop`. -/
structure RawToken where
  kind : TokenKind
  start : Nat
  stop : Nat
  deriving DecidableEq, Repr

/-- The two kinds of flow collection, by their brackets. -/
inductive Bracket where
  | square
  | curly
  deriving DecidableEq, Repr

namespace Bracket

/-- The character that opens a collection. -/
def opening : Bracket → Char
  | .square => '['
  | .curly => '\x7b'

/-- The character that closes a collection. -/
def closing : Bracket → Char
  | .square => ']'
  | .curly => '\x7d'

/-- The kind of token that opens a collection. -/
def openKind : Bracket → TokenKind
  | .square => .flowSequenceStart
  | .curly => .flowMappingStart

/-- The kind of token that closes a collection. -/
def closeKind : Bracket → TokenKind
  | .square => .flowSequenceEnd
  | .curly => .flowMappingEnd

/-- The collection a character opens. -/
def ofOpening? (c : Char) : Option Bracket :=
  if c = '[' then some .square else if c = '\x7b' then some .curly else none

/-- The collection a character closes. -/
def ofClosing? (c : Char) : Option Bracket :=
  if c = ']' then some .square else if c = '\x7d' then some .curly else none

end Bracket

/-- The two kinds of quoted scalar. -/
inductive Quote where
  | single
  | double
  deriving DecidableEq, Repr

/-- The quote a character is. -/
def Quote.ofChar? (c : Char) : Option Quote :=
  if c = '\'' then some .single else if c = '"' then some .double else none

/-- Why a tokenizer gave up. -/
inductive ScanFault where
  /-- A quoted scalar has no closing quote. -/
  | unterminated (quote : Quote)
  /-- The document ends inside a flow collection. -/
  | unclosed (bracket : Bracket)
  /-- A flow collection is closed by the bracket of the other kind. -/
  | mismatched (opened closed : Bracket)
  /-- A closing bracket stands outside every flow collection. -/
  | unexpected (bracket : Bracket)
  /-- What a foreign tokenizer says. -/
  | reported (message : String)
  deriving DecidableEq, Repr

/-- The wording of a fault. -/
def ScanFault.message : ScanFault → String
  | .unterminated .single => "unterminated single-quoted scalar"
  | .unterminated .double => "unterminated double-quoted scalar"
  | .unclosed b => s!"unclosed flow collection starting with '{b.opening}'"
  | .mismatched o c => s!"expected a closing '{o.closing}' but found '{c.closing}'"
  | .unexpected b => s!"unexpected '{b.closing}' outside a flow collection"
  | .reported message => message

/-- A fault and the byte offset it is reported at. -/
structure ScanError where
  offset : Nat
  fault : ScanFault
  deriving DecidableEq, Repr

/-- What one run of a tokenizer yields. -/
structure Scan where
  tokens : List RawToken
  error : Option ScanError
  deriving DecidableEq, Repr

/-- Anything that turns a document into raw tokens. -/
abbrev Tokenizer := Text → Scan

end YamlStyle
