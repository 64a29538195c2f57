import YamlStyle.Value.Yaml.BlockScalar
import YamlStyle.Value.Yaml.Property
import YamlStyle.Value.Yaml.Scalar

/-!
# From characters to lexemes

Lexemes are read one after the other, and two things make this more than a matter of characters.

**Indentation.** A block collection is open as long as lexemes stand at its column or behind it. The
columns of the open ones form a stack: a dash or a key in front of which no collection is open at its
column opens one, and a lexeme further to the left closes all that are deeper.

**Keys.** That a node was a key is only seen at the colon behind it. So the place where a node begins is
remembered as a **candidate**, at most one for each open bracket and one for the block around them, and
at the colon the lexemes that mark a key are put in front of it. A candidate expires at the end of its
line and after 1024 characters. Where a block mapping is open and a node begins at its column, the node
has to be a key, and it is an error if the candidate is given up.
-/

set_option autoImplicit false

namespace YamlStyle

namespace Yaml

/-- A node that may turn out to be a key. -/
structure Candidate where
  /-- The number of lexemes in front of it. -/
  position : Nat
  /-- Whether it has to be a key. -/
  isRequired : Bool
  index : Nat
  line : Nat
  column : Nat

/-- The most characters that a key and its colon may be apart. -/
def maxKeyLength : Nat := 1024

/-- Whether it is too late for a candidate to become a key. -/
def Candidate.isExpired (candidate : Candidate) (cursor : Cursor) : Bool :=
  decide (candidate.line < cursor.line) || decide (candidate.index + maxKeyLength < cursor.index)

/-- How far a file has been read. -/
structure Lexer where
  cursor : Cursor
  /-- More than the number of characters of the file. No loop has so many rounds. -/
  bound : Nat
  /-- The lexemes so far, the last one first. -/
  lexemes : List Lexeme := []
  /-- The number of lexemes so far. -/
  count : Nat := 0
  /-- The columns of the open block collections, the innermost first. -/
  columns : List Nat := []
  /-- The candidate inside the innermost bracket. -/
  candidate : Option Candidate := none
  /-- The candidates around the open brackets, the innermost first. -/
  outer : List (Option Candidate) := []
  /-- Whether a key may begin here. -/
  keyAllowed : Bool := true

namespace Lexer

/-- Whether the place is inside a flow collection. -/
def inFlow (lexer : Lexer) : Bool := !lexer.outer.isEmpty

/-- The least column at which something is inside the innermost block collection. -/
def least (lexer : Lexer) : Nat :=
  match lexer.columns with
  | [] => 0
  | column :: _ => column + 1

/-- Add a lexeme. -/
def push (lexer : Lexer) (lexeme : Lexeme) : Lexer :=
  { lexer with lexemes := lexeme :: lexer.lexemes, count := lexer.count + 1 }

/-- Put a lexeme behind the first `position` ones. -/
def insertAt (lexer : Lexer) (position : Nat) (lexeme : Lexeme) : Lexer :=
  let later := lexer.count - position
  { lexer with
    lexemes := lexer.lexemes.take later ++ lexeme :: lexer.lexemes.drop later
    count := lexer.count + 1 }

/-- Add a lexeme of one character. -/
def pushChar (lexer : Lexer) (lexeme : Lexeme) : Lexer :=
  { lexer.push lexeme with cursor := lexer.cursor.advance 1 }

/-- Say whether a key may begin behind the next lexeme. -/
def allowKey (lexer : Lexer) (keyAllowed : Bool) : Lexer := { lexer with keyAllowed }

/-! ## Indentation -/

/-- Open a block collection at a column, if none is open there. Inside brackets there are no block
collections. -/
def openBlock (lexer : Lexer) (column position : Nat) (lexeme : Lexeme) : Lexer :=
  if lexer.inFlow || decide (column < lexer.least) then lexer
  else { lexer.insertAt position lexeme with columns := column :: lexer.columns }

/-- Close block collections as long as a test holds for their columns. -/
def closeWhile (test : Nat → Bool) : List Nat → Lexer → Lexer
  | [], lexer => { lexer with columns := [] }
  | column :: rest, lexer =>
    if test column then closeWhile test rest (lexer.push .blockEnd)
    else { lexer with columns := column :: rest }

/-- Close the block collections that the place is not inside of. -/
def closeBlocks (lexer : Lexer) : Lexer :=
  if lexer.inFlow then lexer
  else closeWhile (fun column => decide (lexer.cursor.column < column)) lexer.columns lexer

/-- Close all block collections. -/
def closeAll (lexer : Lexer) : Lexer :=
  if lexer.inFlow then lexer else closeWhile (fun _ => true) lexer.columns lexer

/-! ## Candidates -/

/-- Give up the candidate. -/
def dropCandidate? (lexer : Lexer) : Option Lexer :=
  match lexer.candidate with
  | some ⟨_, true, _, _, _⟩ => none
  | _ => some { lexer with candidate := none }

/-- Make the place a candidate, if a key may begin here. -/
def saveCandidate? (lexer : Lexer) : Option Lexer :=
  if lexer.keyAllowed then
    lexer.dropCandidate?.map fun lexer =>
      let cursor := lexer.cursor
      { lexer with
        candidate := some {
          position := lexer.count
          isRequired := !lexer.inFlow && lexer.columns.head? == some cursor.column
          index := cursor.index
          line := cursor.line
          column := cursor.column } }
  else some lexer

/-- A candidate, unless it has expired. It is an error if one expires that has to be a key. -/
def unexpired? (cursor : Cursor) : Option Candidate → Option (Option Candidate)
  | none => some none
  | some candidate =>
    if !candidate.isExpired cursor then some (some candidate)
    else if candidate.isRequired then none
    else some none

/-- Give up the candidates that have expired. -/
def dropExpired? (lexer : Lexer) : Option Lexer := do
  let candidate ← unexpired? lexer.cursor lexer.candidate
  let outer ← lexer.outer.mapM (unexpired? lexer.cursor)
  some { lexer with candidate, outer }

/-! ## Layout -/

/-- Whether a blank can be passed over. A tab cannot where a key may begin in a block. -/
def isSkippable (lexer : Lexer) (c : Char) : Bool :=
  c == ' ' || (c == '\t' && (lexer.inFlow || !lexer.keyAllowed))

/-- Pass over blanks, comments and line ends. On a new line of a block a key may begin. -/
def skipLayout : Nat → Lexer → Lexer
  | 0, lexer => lexer
  | fuel + 1, lexer =>
    let cursor := (lexer.cursor.skipWhile lexer.isSkippable).skipComment
    match cursor.lineEnd? with
    | none => { lexer with cursor }
    | some (_, cursor) =>
      skipLayout fuel { lexer with cursor, keyAllowed := lexer.keyAllowed || !lexer.inFlow }

/-! ## Lexemes -/

/-- A line that belongs to no document: a directive or a marker. All block collections end here. -/
def outside? (lexer : Lexer) : Option Lexer :=
  lexer.closeAll.dropCandidate?.map (·.allowKey false)

/-- A document marker. -/
def marker? (lexer : Lexer) (lexeme : Lexeme) : Option Lexer :=
  lexer.outside?.map fun lexer =>
    { lexer.push lexeme with cursor := lexer.cursor.advance 3 }

/-- An opening bracket. It may begin a key, and so may what follows it. Brackets that are nested deeper
than any value are refused here. -/
def openFlow? (lexer : Lexer) (lexeme : Lexeme) : Option Lexer :=
  if maxDepth ≤ lexer.outer.length then none
  else
    lexer.saveCandidate?.map fun lexer =>
      let inner := { lexer with outer := lexer.candidate :: lexer.outer, candidate := none }
      (inner.pushChar lexeme).allowKey true

/-- A closing bracket. -/
def closeFlow? (lexer : Lexer) (lexeme : Lexeme) : Option Lexer :=
  lexer.dropCandidate?.map fun lexer =>
    let lexer := match lexer.outer with
      | [] => lexer
      | candidate :: outer => { lexer with candidate, outer }
    (lexer.pushChar lexeme).allowKey false

/-- A comma. -/
def comma? (lexer : Lexer) : Option Lexer :=
  lexer.dropCandidate?.map fun lexer => (lexer.pushChar .comma).allowKey true

/-- A dash. In a block it opens a sequence where a key might begin, and nowhere else. -/
def dash? (lexer : Lexer) : Option Lexer :=
  if !lexer.inFlow && !lexer.keyAllowed then none
  else
    (lexer.openBlock lexer.cursor.column lexer.count .blockSequence).dropCandidate?.map fun lexer =>
      (lexer.pushChar .dash).allowKey true

/-- A question mark in front of a key. -/
def key? (lexer : Lexer) : Option Lexer :=
  if !lexer.inFlow && !lexer.keyAllowed then none
  else
    (lexer.openBlock lexer.cursor.column lexer.count .blockMapping).dropCandidate?.map fun lexer =>
      (lexer.pushChar .key).allowKey (!lexer.inFlow)

/-- A colon. The candidate becomes a key, and no other key may follow. Without a candidate this is the
value of a key behind a question mark. -/
def colon? (lexer : Lexer) : Option Lexer :=
  match lexer.candidate with
  | some candidate =>
    let lexer := lexer.insertAt candidate.position .key
    let lexer := lexer.openBlock candidate.column candidate.position .blockMapping
    some (({ lexer with candidate := none }.pushChar .colon).allowKey false)
  | none =>
    if !lexer.inFlow && !lexer.keyAllowed then none
    else
      let lexer := lexer.openBlock lexer.cursor.column lexer.count .blockMapping
      some ((lexer.pushChar .colon).allowKey (!lexer.inFlow))

/-- A lexeme that may begin a key, and behind which none may begin. -/
def inline? (lexer : Lexer) (read : Cursor → Option (Lexeme × Cursor)) : Option Lexer := do
  let lexer ← lexer.saveCandidate?
  let (lexeme, cursor) ← read lexer.cursor
  some ({ lexer.push lexeme with cursor }.allowKey false)

/-- A quoted scalar. -/
def quoted? (lexer : Lexer) (quote : Quote) : Option Lexer :=
  lexer.inline? fun cursor =>
    (quote.scalar? lexer.bound cursor).map fun (text, cursor) => (.scalar false text, cursor)

/-- A plain scalar. If lines have ended behind it, a key may begin. -/
def plain? (lexer : Lexer) : Option Lexer := do
  let lexer ← lexer.saveCandidate?
  let (text, hasLineEnd, cursor) ← Yaml.plain? lexer.inFlow lexer.least lexer.bound lexer.cursor
  some ({ lexer.push (.scalar true text) with cursor }.allowKey hasLineEnd)

/-- A block scalar. It ends at the start of a line, where a key may begin. -/
def block? (lexer : Lexer) (isFolded : Bool) : Option Lexer := do
  let lexer ← lexer.dropCandidate?
  let (text, cursor) ← Block.scalar? isFolded lexer.least lexer.bound lexer.cursor
  some ({ lexer.push (.scalar false text) with cursor }.allowKey true)

/-- Whether a plain scalar can begin with a character that stands in front of `rest`. -/
def startsPlain (lexer : Lexer) (c : Char) (rest : Text) : Bool :=
  if c == '-' then !startsWithAny " \t" rest
  else if c == '?' || c == ':' then !lexer.inFlow && !isSeparated rest
  else !isGap c && !",[]\x7b\x7d#&*!|>'\"%@`".toList.contains c

/-- Read the lexeme that begins with `c`. -/
def lexeme? (lexer : Lexer) (c : Char) (rest : Text) : Option Lexer :=
  if lexer.cursor.column == 0 && c == '%' then do
    let lexer ← lexer.outside?
    let (lexeme, cursor) ← directive? lexer.bound lexer.cursor
    some { lexer.push lexeme with cursor }
  else if lexer.cursor.isAtMarker '-' then lexer.marker? .documentStart
  else if lexer.cursor.isAtMarker '.' then lexer.marker? .documentEnd
  else if c == '[' then lexer.openFlow? .openBracket
  else if c == '\x7b' then lexer.openFlow? .openBrace
  else if c == ']' then lexer.closeFlow? .closeBracket
  else if c == '\x7d' then lexer.closeFlow? .closeBrace
  else if c == ',' then lexer.comma?
  else if c == '-' && isSeparated rest then lexer.dash?
  else if c == '?' && (lexer.inFlow || isSeparated rest) then lexer.key?
  else if c == ':' && (lexer.inFlow || isSeparated rest) then lexer.colon?
  else if c == '*' then
    lexer.inline? fun cursor => (anchorName? cursor).map fun (name, cursor) => (.alias name, cursor)
  else if c == '&' then
    lexer.inline? fun cursor => (anchorName? cursor).map fun (name, cursor) => (.anchor name, cursor)
  else if c == '!' then lexer.inline? (tag? lexer.inFlow lexer.bound)
  else if c == '|' && !lexer.inFlow then lexer.block? false
  else if c == '>' && !lexer.inFlow then lexer.block? true
  else if c == '\'' then lexer.quoted? .single
  else if c == '"' then lexer.quoted? .double
  else if lexer.startsPlain c rest then lexer.plain?
  else none

/-- Read lexemes up to the end of the file. Each takes something from the text. -/
def lexemes? : Nat → Lexer → Option (List Lexeme)
  | 0, _ => none
  | fuel + 1, lexer => do
    let lexer ← (lexer.skipLayout lexer.bound).dropExpired?
    let lexer := lexer.closeBlocks
    match lexer.cursor.rest with
    | [] => some (← lexer.outside?).lexemes.reverse
    | c :: rest => lexemes? fuel (← lexer.lexeme? c rest)

end Lexer

/-- The cursor at the start of a file. A byte order mark there is passed over, but counts as a
character. -/
def startOf (text : Text) : Cursor :=
  match text with
  | '\ufeff' :: _ => { rest := text : Cursor }.advance 1
  | _ => { rest := text }

/-- The lexemes of a file. -/
def Lexeme.ofText? (text : Text) : Option (List Lexeme) :=
  if text.all isPrintable then
    let bound := text.length + 1
    Lexer.lexemes? bound { cursor := startOf text, bound }
  else none

end Yaml

end YamlStyle
