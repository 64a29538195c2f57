import YamlStyle.Proofs.Text.Ascii

/-!
# A scanner over bytes

`Scanner.run` has what is left of a text in its hands, takes pieces off the front and cannot read what is
not there. A **cursor** has all the bytes of a text and an offset. It computes further offsets, steps over
the byte behind an escape without a look at it, walks through lines below a header and comes back, and
cuts pieces out of the bytes by where it has been. Here every such read can fail: an index that no byte
has, a piece that runs backwards or past the end, and the whole turn comes to `none`.

The loop of a cursor is not a recursion. A **turn** takes a cursor to the next one or ends the scan, and
`Rounds` are the cursors at which a turn begins. Neither that turns succeed nor that they end is built in.
-/

set_option autoImplicit false

namespace YamlStyle

namespace Scanner

/-! ## Reads -/

/-- The bytes between two offsets. -/
def cut? (bs : List UInt8) (start stop : Nat) : Option (List UInt8) :=
  if start ≤ stop ∧ stop ≤ bs.length then some ((bs.drop start).take (stop - start)) else none

/-- The byte before an offset. -/
def before? (bs : List UInt8) : Nat → Option UInt8
  | 0 => none
  | i + 1 => bs[i]?

/-- A look at the byte at an offset, which need not be there. -/
def peek (bs : List UInt8) (i : Nat) : Option Char := bs[i]?.map byteChar

def separatedAt (bs : List UInt8) (i : Nat) : Bool :=
  (peek bs i).all fun c => isBlank c || isBreak c

def endsKeyAt (bs : List UInt8) (inFlow : Bool) (i : Nat) : Bool :=
  separatedAt bs i || (inFlow && (peek bs i).any isFlowIndicator)

/-- The number of bytes of the ending at an offset. -/
def endingLength (bs : List UInt8) (i : Nat) : Nat :=
  if peek bs i = some '\r' ∧ peek bs (i + 1) = some '\n' then 2
  else if (peek bs i).any isBreak then 1
  else 0

/-- Whether the document marker made of `mark` stands at an offset. -/
def marker? (bs : List UInt8) (mark : Char) (start : Nat) : Option Bool := do
  let tail ← cut? bs start bs.length
  pure ([mark, mark, mark].isPrefixOf (tail.map byteChar) && separatedAt bs (start + 3))

/-- The same where a byte looks like `c`. Only the mark itself at the start of a line is looked behind. -/
def markerAt? (bs : List UInt8) (atStart : Bool) (mark c : Char) (start : Nat) : Option Bool :=
  if atStart && c == mark then marker? bs mark start else some false

/-- Where the stretch of bytes from an offset on that pass a test ends. -/
def stretchEnd? (test : Char → Bool) (bs : List UInt8) (start : Nat) : Option Nat := do
  let tail ← cut? bs start bs.length
  pure (start + (tail.takeWhile fun b => test (byteChar b)).length)

def lineEnd? : List UInt8 → Nat → Option Nat := stretchEnd? (!isBreak ·)

def nameEnd? : List UInt8 → Nat → Option Nat :=
  stretchEnd? fun c => !(isBlank c || isBreak c || isFlowIndicator c)

theorem lt_length_of_peek {bs : List UInt8} {i : Nat} {test : Char → Bool}
    (h : (peek bs i).any test = true) : i < bs.length := by
  by_contra hle
  rw [peek, List.getElem?_eq_none (Nat.le_of_not_lt hle)] at h
  exact absurd h (by simp)

/-- The first offset from `i` on at which there is no blank. -/
def pastBlanks (bs : List UInt8) (i : Nat) : Nat :=
  if h : (peek bs i).any isBlank = true then pastBlanks bs (i + 1) else i
termination_by bs.length - i
decreasing_by
  have hlt := lt_length_of_peek h
  omega

/-- The offset behind the closing quote, if there is one from `i` on. -/
def quotedEnd? (bs : List UInt8) (quote : Quote) (i : Nat) : Option (Option Nat) :=
  if i < bs.length then do
    let b ← bs[i]?
    if b = escapeByte ∧ quote = .double then quotedEnd? bs quote (i + 2)
    else if b = quote.byte ∧ quote = .single ∧ bs[i + 1]? = some quote.byte then
      quotedEnd? bs quote (i + 2)
    else if b = quote.byte then some (some (i + 1))
    else quotedEnd? bs quote (i + 1)
  else some none
termination_by bs.length - i

/-- The number of spaces some bytes begin with. -/
def leadingSpaceBytes (bs : List UInt8) : Nat := (bs.takeWhile fun b => byteChar b == ' ').length

/-- The next line starts further on. -/
theorem lt_add_endingLength {bs : List UInt8} {i stop : Nat} (h : i < bs.length)
    (hstop : lineEnd? bs i = some stop) : i < stop + endingLength bs stop := by
  obtain ⟨tail, htail, hlength⟩ := Option.bind_eq_some_iff.mp hstop
  obtain rfl := Option.some.inj hlength
  obtain ⟨-, hcut⟩ := Option.ite_none_right_eq_some.mp htail
  obtain rfl := Option.some.inj hcut
  rw [← List.length_drop, List.take_length, List.drop_eq_getElem_cons h]
  by_cases hbreak : isBreak (byteChar bs[i]) = true
  · have hpeek : peek bs i = some (byteChar bs[i]) := by rw [peek, List.getElem?_eq_getElem h]; rfl
    rw [List.takeWhile_cons_of_neg (by simp [hbreak]), endingLength, List.length_nil, Nat.add_zero, hpeek,
      Option.any_some, if_pos hbreak]
    split <;> omega
  · rw [List.takeWhile_cons_of_pos (by simpa using hbreak), List.length_cons]
    omega

/-- Where the body of a block scalar ends, when the line at `i` is the next one to look at and the scalar
reaches to `stop` so far. -/
def bodyEnd? (bs : List UInt8) (indent i stop : Nat) : Option Nat :=
  if _ : i < bs.length then
    match _ : lineEnd? bs i with
    | none => none
    | some lineStop => do
      let line ← cut? bs i lineStop
      if leadingSpaceBytes line = line.length then
        bodyEnd? bs indent (lineStop + endingLength bs lineStop) stop
      else if indent < leadingSpaceBytes line then
        bodyEnd? bs indent (lineStop + endingLength bs lineStop) lineStop
      else some stop
  else some stop
termination_by bs.length - i
decreasing_by
  all_goals
    have hlt := lt_add_endingLength ‹i < bs.length› ‹lineEnd? bs i = some lineStop›
    omega

/-- Whether a byte begins a comment behind a blank, in a scalar that began at `start`. -/
def hash? (bs : List UInt8) (start i : Nat) (c : Char) : Option Bool :=
  if c = '#' ∧ start < i then (before? bs i).map fun b => isBlank (byteChar b) else some false

/-- Where a plain scalar that began at `start` ends, when the byte at `i` is the next one to look at and
the scalar reaches to `stop` so far. -/
def plainEnd? (bs : List UInt8) (inFlow : Bool) (start i stop : Nat) : Option Nat :=
  if i < bs.length then do
    let b ← bs[i]?
    let c := byteChar b
    if isBreak c || (c == ':' && endsKeyAt bs inFlow (i + 1)) || (inFlow && isFlowIndicator c) then
      some stop
    else do
      let stopped ← hash? bs start i c
      if stopped then some stop
      else plainEnd? bs inFlow start (i + 1) (if isBlank c then stop else i + 1)
  else some stop
termination_by bs.length - i

/-- The index of the last break. -/
def lastBreak? : List UInt8 → Option Nat
  | [] => none
  | b :: bs =>
    match lastBreak? bs with
    | some i => some (i + 1)
    | none => if isBreak (byteChar b) then some 0 else none

/-! ## Turns -/

/-- A place in the bytes of a text, and what was read in front of it. -/
structure Cursor where
  pos : Nat
  /-- Where the current line starts. -/
  lineStart : Nat
  /-- The open flow collections and where each was opened, the innermost first. -/
  flow : List (Bracket × Nat)
  tokens : List RawToken
  deriving DecidableEq, Repr

/-- What a turn comes to. -/
inductive Turn where
  | next (cursor : Cursor)
  | done (scan : Scan)
  deriving DecidableEq, Repr

namespace Cursor

def initial : Cursor := ⟨0, 0, [], []⟩

def skipBlanks (cursor : Cursor) (bs : List UInt8) : Cursor :=
  { cursor with pos := pastBlanks bs cursor.pos }

/-- Read a token that reaches to `stop`. -/
def emit (cursor : Cursor) (kind : TokenKind) (stop : Nat) : Cursor :=
  { cursor with pos := stop, tokens := cursor.tokens ++ [⟨kind, cursor.pos, stop⟩] }

/-- Remember a collection that a token of this kind opens. -/
def push (cursor : Cursor) : TokenKind → Cursor
  | .flowSequenceStart => { cursor with flow := (.square, cursor.pos) :: cursor.flow }
  | .flowMappingStart => { cursor with flow := (.curly, cursor.pos) :: cursor.flow }
  | _ => cursor

/-- Find the start of the line anew behind a token that may run over several lines. -/
def realign? (cursor : Cursor) (bs : List UInt8) (start stop : Nat) : Option Cursor := do
  let piece ← cut? bs start stop
  match lastBreak? piece with
  | some i => pure { cursor with lineStart := start + i + 1 }
  | none => pure cursor

/-- End the scan with a fault. -/
def fail (cursor : Cursor) (fault : ScanFault) : Turn :=
  .done ⟨cursor.tokens, some ⟨cursor.pos, fault⟩⟩

def close (cursor : Cursor) (bracket : Bracket) : Turn :=
  match cursor.flow with
  | [] => cursor.fail (.unexpected bracket)
  | (opened, _) :: below =>
    if opened = bracket then .next ({ cursor with flow := below }.emit bracket.closeKind (cursor.pos + 1))
    else cursor.fail (.mismatched opened bracket)

/-- The shape that starts at the cursor, whose byte looks like `c`. -/
def shape? (cursor : Cursor) (bs : List UInt8) (c : Char) : Option Shape := do
  let atStart := cursor.pos == cursor.lineStart
  let inFlow := !cursor.flow.isEmpty
  let separated := separatedAt bs (cursor.pos + 1)
  let opens ← markerAt? bs atStart '-' c cursor.pos
  let closes ← markerAt? bs atStart '.' c cursor.pos
  pure <|
    if isBlank c then .blanks
    else if isBreak c then .ending
    else if c == '#' then .line .comment
    else if opens then .marker .documentStart
    else if closes then .marker .documentEnd
    else if atStart && c == '%' then .line .directive
    else if c == '-' && !inFlow && separated then .indicator .blockEntry
    else if c == '?' && separated then .indicator .key
    else if c == ':' && endsKeyAt bs inFlow (cursor.pos + 1) then .indicator .value
    else if let some bracket := Bracket.ofOpening? c then .indicator bracket.openKind
    else if let some bracket := Bracket.ofClosing? c then .closing bracket
    else if c == ',' && inFlow then .indicator .flowEntry
    else if c == '&' then .name .anchor
    else if c == '*' then .name .aliasNode
    else if c == '!' then .name .tag
    else if let some quote := Quote.ofChar? c then .quoted quote
    else if (c == '|' || c == '>') && !inFlow then .block
    else .plain

/-- Read what has this shape. -/
def read? (cursor : Cursor) (bs : List UInt8) : Shape → Option Turn
  | .blanks => some (.next (cursor.skipBlanks bs))
  | .ending =>
    let next := cursor.pos + endingLength bs cursor.pos
    some (.next { cursor with pos := next, lineStart := next })
  | .line kind => do
    let stop ← lineEnd? bs cursor.pos
    pure (.next (cursor.emit kind stop))
  | .marker kind => some (.next (cursor.emit kind (cursor.pos + 3)))
  | .indicator kind => some (.next ((cursor.push kind).emit kind (cursor.pos + 1)))
  | .closing bracket => some (cursor.close bracket)
  | .name kind => do
    let stop ← nameEnd? bs (cursor.pos + 1)
    pure (.next (cursor.emit kind stop))
  | .quoted quote => do
    match ← quotedEnd? bs quote (cursor.pos + 1) with
    | some stop => do
      let next ← (cursor.emit .scalar stop).realign? bs cursor.pos stop
      pure (.next next)
    | none => pure (cursor.fail (.unterminated quote))
  | .block => do
    let line ← cut? bs cursor.lineStart cursor.pos
    let header ← lineEnd? bs cursor.pos
    let stop ← bodyEnd? bs (leadingSpaceBytes line) (header + endingLength bs header) header
    let next ← (cursor.emit .blockScalar stop).realign? bs cursor.pos stop
    pure (.next next)
  | .plain => do
    let stop ← plainEnd? bs (!cursor.flow.isEmpty) cursor.pos cursor.pos cursor.pos
    pure (.next (cursor.emit .scalar (max stop (cursor.pos + 1))))

/-- What the cursor does at the byte where it is, or at the end. -/
def act? (cursor : Cursor) (bs : List UInt8) : Option Turn :=
  match bs[cursor.pos]? with
  | none => some (.done ⟨cursor.tokens, cursor.flow.head?.map fun (b, i) => ⟨i, .unclosed b⟩⟩)
  | some b => do
    let shape ← cursor.shape? bs (byteChar b)
    cursor.read? bs shape

/-- One turn of the loop: the blanks, and what stands behind them. -/
def turn? (cursor : Cursor) (bs : List UInt8) : Option Turn := (cursor.skipBlanks bs).act? bs

/-- The cursors at which a turn begins, with the number of turns before it. -/
inductive Rounds (bs : List UInt8) : Nat → Cursor → Prop
  | start : Rounds bs 0 initial
  | next {n : Nat} {cursor next : Cursor} :
      Rounds bs n cursor → cursor.turn? bs = some (.next next) → Rounds bs (n + 1) next

end Cursor

end Scanner

end YamlStyle
