import YamlStyle.Line.Index
import YamlStyle.Text.Quoted
import YamlStyle.Token

/-!
# Token streams

`TokenStream.segment` runs a tokenizer and places what it reports in the document. The stream opens
with a stream start and closes with a stream end, has a line break for every line ending, and is cut
off where the tokenizer reported a fault.

A tokenizer is not trusted. Spans that run backwards, leave the document or miss a character boundary
are dropped, and the rest is put in order of where it starts; a token stays ahead of a line break
that starts at the same byte. The cut is the offset of the fault, pulled back to a character boundary
and into the document.
-/

set_option autoImplicit false

namespace YamlStyle

/-- A token in its place. The end position is not part of the token. -/
structure Token where
  kind : TokenKind
  value : Text
  start : Position
  stop : Position
  deriving DecidableEq, Repr

/-- One line that shows a token. -/
def Token.describe (token : Token) : String :=
  s!"{token.kind.name} {token.start.render}-{token.stop.render} {Quoted.render token.value}"

/-- A fault in its place. -/
structure SyntaxFault where
  position : Position
  fault : ScanFault
  deriving DecidableEq, Repr

/-- One line that shows a fault. -/
def SyntaxFault.describe (e : SyntaxFault) : String :=
  s!"{e.position.render}: {e.fault.message}"

/-- The tokens of a document in their places, and the fault that cut them short. -/
structure TokenStream where
  tokens : List Token
  error : Option SyntaxFault
  deriving DecidableEq, Repr

namespace TokenStream

/-- The byte offset at which a scan is cut off. -/
def cutoff (text : Text) (scan : Scan) : Nat :=
  match scan.error with
  | some e => floorBoundary text e.offset
  | none => width text

/-- Whether a raw token covers whole characters of the document. -/
def isValid (text : Text) (t : RawToken) : Bool := (slice? text t.start t.stop).isSome

/-- The line breaks that start before `cut`. -/
def lineBreaks (text : Text) (cut : Nat) : List RawToken :=
  ((lines text).filter fun l => l.isTerminated && decide (l.stop < cut)).map
    fun l => ⟨.lineBreak, l.stop, l.nextStart⟩

/-- The tokens between stream start and stream end, in order. -/
def body (text : Text) (scan : Scan) : List RawToken :=
  let cut := cutoff text scan
  let kept := scan.tokens.filter fun t => isValid text t && decide (t.start < cut)
  (kept ++ lineBreaks text cut).mergeSort fun a b => decide (a.start ≤ b.start)

/-- Put a raw token in its place. -/
def place (text : Text) (index : Index) (t : RawToken) : Token :=
  ⟨t.kind, (slice? text t.start t.stop).getD [], index.locate t.start, index.locate t.stop⟩

/-- The stream of a scan. -/
def ofScan (text : Text) (scan : Scan) : TokenStream :=
  let index := Index.ofText text
  let cut := cutoff text scan
  let frame (kind : TokenKind) (offset : Nat) : RawToken := ⟨kind, offset, offset⟩
  { tokens :=
      (frame .streamStart 0 :: body text scan ++ [frame .streamEnd cut]).map (place text index)
    error := scan.error.map fun e => ⟨index.locate cut, e.fault⟩ }

/-- Tokenize a document and place its tokens. -/
def segment (tokenizer : Tokenizer) (text : Text) : TokenStream := ofScan text (tokenizer text)

end TokenStream

end YamlStyle
