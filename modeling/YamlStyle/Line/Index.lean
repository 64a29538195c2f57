import YamlStyle.Line

/-!
# Positions

A position is a line and a column, both from 1, and columns count characters. `Index.locate` maps
every byte offset to one, also those that point past the end (they mean the end) and those inside a
character (their column counts bytes, which keeps them on the right line).

The position after a final line ending is column 1 of a line that `lines` does not list. That is why
the index keeps the *starts* of lines and not the lines themselves.
-/

set_option autoImplicit false

namespace YamlStyle

/-- A place in a document. -/
structure Position where
  line : Nat
  column : Nat
  deriving DecidableEq, Repr, Inhabited

/-- The written form `line:column`. -/
def Position.render (p : Position) : String := s!"{p.line}:{p.column}"

/-- Where a line starts, and the document from there on. -/
structure LineStart where
  offset : Nat
  tail : Text
  deriving DecidableEq, Repr

/-- The places where a line starts, apart from the beginning: after every line ending. -/
def lineStarts (text : Text) : List LineStart :=
  ((lines text).filter Line.isTerminated).map fun l => ⟨l.nextStart, l.after⟩

/-- The line starts of a document, ready for looking up offsets. -/
structure Index where
  /-- The beginning of the document. -/
  first : LineStart
  /-- The other line starts, in order. -/
  later : List LineStart
  /-- Number of bytes of the document. -/
  length : Nat
  deriving DecidableEq, Repr

namespace Index

/-- The index of a document. -/
def ofText (text : Text) : Index := ⟨⟨0, text⟩, lineStarts text, width text⟩

/-- Characters between a line start and an offset; bytes if the offset lies inside a character. -/
def distance (start : LineStart) (offset : Nat) : Nat :=
  match splitAt? start.tail (offset - start.offset) with
  | some (front, _) => front.length
  | none => offset - start.offset

/-- The position of an offset that is not before `start`, where the line numbered `number` starts;
`later` are the line starts after it. -/
def seek (offset number : Nat) (start : LineStart) (later : List LineStart) : Position :=
  match later with
  | [] => ⟨number, distance start offset + 1⟩
  | next :: later =>
    if next.offset ≤ offset then seek offset (number + 1) next later
    else ⟨number, distance start offset + 1⟩

/-- The position of a byte offset. -/
def locate (index : Index) (offset : Nat) : Position :=
  seek (min offset index.length) 1 index.first index.later

end Index

end YamlStyle
