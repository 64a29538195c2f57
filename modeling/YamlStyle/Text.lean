/-!
# Texts and byte offsets

A document is a list of characters. Everything that points into a document does so by a **byte
offset**: the number of bytes the UTF-8 encoding of the characters before it takes. An offset may
therefore fall inside a character, or past the end, and both happen when the offset comes from
outside; `splitAt?` is the one place that tells the good offsets from the bad.

`Text` is a plain list on purpose. The scanner, the line splitter and the rules all walk a document
from the left and hand on what remains, and that is recursion on a list.
-/

set_option autoImplicit false

namespace YamlStyle

/-- The characters of a document, or of a piece of one. -/
abbrev Text := List Char

/-- Number of bytes in the UTF-8 encoding of a text. -/
def width : Text → Nat
  | [] => 0
  | c :: cs => c.utf8Size + width cs

@[simp] theorem width_nil : width [] = 0 := rfl

@[simp] theorem width_cons (c : Char) (cs : Text) : width (c :: cs) = c.utf8Size + width cs := rfl

@[simp] theorem width_append (s t : Text) : width (s ++ t) = width s + width t := by
  induction s with
  | nil => simp
  | cons c cs ih => simp [ih, Nat.add_assoc]

/-- Divide a text at a byte offset. There is no division when the offset lies inside a character or
past the end. -/
def splitAt? : Text → Nat → Option (Text × Text)
  | cs, 0 => some ([], cs)
  | [], _ + 1 => none
  | c :: cs, n + 1 =>
    if c.utf8Size ≤ n + 1 then
      (splitAt? cs (n + 1 - c.utf8Size)).map fun (front, back) => (c :: front, back)
    else none

/-- The characters from a byte offset on, under the same conditions. -/
def dropBytes? : Text → Nat → Option Text
  | cs, 0 => some cs
  | [], _ + 1 => none
  | c :: cs, n + 1 => if c.utf8Size ≤ n + 1 then dropBytes? cs (n + 1 - c.utf8Size) else none

theorem dropBytes?_eq_splitAt? (text : Text) (offset : Nat) :
    dropBytes? text offset = (splitAt? text offset).map Prod.snd := by
  fun_induction splitAt? text offset with
  | case1 cs => rw [dropBytes?]; rfl
  | case2 n => rfl
  | case3 c cs n h ih => rw [dropBytes?, if_pos h, ih, Option.map_map]; rfl
  | case4 c cs n h => rw [dropBytes?, if_neg h]; rfl

/-- Whether a byte offset lies between two characters, or at either end. -/
def isBoundary (text : Text) (offset : Nat) : Bool := (dropBytes? text offset).isSome

/-- The characters between two byte offsets, if both are boundaries and in order. -/
def slice? (text : Text) (start stop : Nat) : Option Text :=
  if start ≤ stop then do
    let tail ← dropBytes? text start
    let (piece, _) ← splitAt? tail (stop - start)
    pure piece
  else none

/-- The greatest boundary of a text that is not above `offset`. -/
def floorBoundary : Text → Nat → Nat
  | [], _ => 0
  | c :: cs, n => if c.utf8Size ≤ n then c.utf8Size + floorBoundary cs (n - c.utf8Size) else 0

/-- Whether `word` stands somewhere in a text. -/
def occursIn (word : Text) : Text → Bool
  | [] => word.isEmpty
  | c :: cs => word.isPrefixOf (c :: cs) || occursIn word cs

/-! ## Characters of the layout -/

/-- Space and tab separate tokens and do nothing else. -/
def isBlank (c : Char) : Bool := c == ' ' || c == '\t'

/-- The two characters line endings are made of. -/
def isBreak (c : Char) : Bool := c == '\n' || c == '\r'

/-- Number of spaces a text begins with. Tabs do not count. -/
def leadingSpaces (text : Text) : Nat := (text.takeWhile (· == ' ')).length

/-- A text without the blanks at its end. -/
def stripBlanks : Text → Text
  | [] => []
  | c :: cs =>
    match stripBlanks cs with
    | [] => if isBlank c then [] else [c]
    | d :: ds => c :: d :: ds

end YamlStyle
