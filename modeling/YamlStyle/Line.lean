import YamlStyle.Text

/-!
# Physical lines

`lines` divides a document into its physical lines. A line ends at LF, CR LF or a bare CR, and CR LF
is one ending, not two. The last line may have no ending, and then it has some content: a document
that stops right after an ending has no further line, and the empty document has no line at all.

A `Line` keeps what lies on either side of it. Rules that look around (how many blank lines stand
above this one, does a blank line follow) read `before` and `after` and need no document at hand.
-/

set_option autoImplicit false

namespace YamlStyle

/-- How a line ends. -/
inductive Ending where
  | none
  | lf
  | crlf
  | cr
  deriving DecidableEq, Repr, Inhabited

/-- The characters of an ending. -/
def Ending.text : Ending → Text
  | .none => []
  | .lf => ['\n']
  | .crlf => ['\r', '\n']
  | .cr => ['\r']

/-- The ending a text begins with, and what follows it. -/
def Ending.split : Text → Ending × Text
  | '\r' :: '\n' :: rest => (.crlf, rest)
  | '\r' :: rest => (.cr, rest)
  | '\n' :: rest => (.lf, rest)
  | rest => (.none, rest)

theorem Ending.text_append_split (text : Text) :
    (Ending.split text).1.text ++ (Ending.split text).2 = text := by
  unfold Ending.split
  split <;> rfl

/-- The characters up to the first break. -/
def lineContent (text : Text) : Text := text.takeWhile (!isBreak ·)

/-- The characters from the first break on. -/
def lineRest (text : Text) : Text := text.dropWhile (!isBreak ·)

theorem lineContent_append_lineRest (text : Text) : lineContent text ++ lineRest text = text :=
  List.takeWhile_append_dropWhile

/-- What follows the first line of a non-empty text is shorter than the text. -/
theorem length_split_lineRest_lt (c : Char) (cs : Text) :
    (Ending.split (lineRest (c :: cs))).2.length < (c :: cs).length := by
  have hsplit := congrArg List.length (Ending.text_append_split (lineRest (c :: cs)))
  have hline := congrArg List.length (lineContent_append_lineRest (c :: cs))
  simp only [List.length_append] at hsplit hline
  by_cases hc : isBreak c = true
  · have hrest : lineRest (c :: cs) = c :: cs := by simp [lineRest, hc]
    rw [hrest] at hsplit ⊢
    have hpos : 0 < (Ending.split (c :: cs)).1.text.length := by
      simp only [isBreak, Bool.or_eq_true, beq_iff_eq] at hc
      rcases hc with rfl | rfl
      · simp [Ending.split, Ending.text]
      · cases cs with
        | nil => simp [Ending.split, Ending.text]
        | cons d ds => unfold Ending.split; split <;> simp_all [Ending.text]
    omega
  · have hpos : 0 < (lineContent (c :: cs)).length := by simp [lineContent, hc]
    omega

/-- One physical line and its surroundings. -/
structure Line where
  /-- Number of the line, from 1. -/
  number : Nat
  /-- Byte offset of the first character. -/
  start : Nat
  /-- The characters before the ending. -/
  content : Text
  /-- How the line ends. -/
  ending : Ending
  /-- The characters above the line, the nearest first. -/
  before : Text
  /-- The characters below the line. -/
  after : Text
  deriving DecidableEq, Repr

namespace Line

/-- Byte offset where the content ends. -/
def stop (line : Line) : Nat := line.start + width line.content

/-- Byte offset where the ending ends. -/
def nextStart (line : Line) : Nat := line.stop + width line.ending.text

/-- Whether the line has no content. -/
def isEmpty (line : Line) : Bool := line.content.isEmpty

/-- Whether the line has an ending. -/
def isTerminated (line : Line) : Bool := line.ending != .none

/-- Column of a byte offset, counted in characters from the start of the line. An offset before the
line, past the document or inside a character has column 1. -/
def columnOf (line : Line) (offset : Nat) : Nat :=
  if line.start ≤ offset then
    match splitAt? (line.content ++ line.ending.text ++ line.after) (offset - line.start) with
    | some (front, _) => front.length + 1
    | none => 1
  else 1

end Line

/-- The lines of `text`, when `before` (nearest character first) stands above it, the first of them
numbered `number` and starting at byte `start`. -/
def linesFrom (number start : Nat) (before : Text) : Text → List Line
  | [] => []
  | c :: cs =>
    let content := lineContent (c :: cs)
    let cut := Ending.split (lineRest (c :: cs))
    let line : Line := ⟨number, start, content, cut.1, before, cut.2⟩
    line :: linesFrom (number + 1) line.nextStart
      (cut.1.text.reverse ++ (content.reverse ++ before)) cut.2
termination_by text => text.length
decreasing_by exact length_split_lineRest_lt c cs

/-- The physical lines of a document. -/
def lines (text : Text) : List Line := linesFrom 1 0 [] text

end YamlStyle
