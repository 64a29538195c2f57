import YamlStyle.Text

/-!
# White space and words

White space is Unicode's property of that name, not the two blanks that separate YAML tokens: a
no-break space or a line separator divides words just as well. Zero-width characters are not white
space.

A **word** is a longest stretch without white space.
-/

set_option autoImplicit false

namespace YamlStyle

/-- Whether a character has the White_Space property. -/
def isWhiteSpace (c : Char) : Bool :=
  let n := c.toNat
  (0x09 ≤ n && n ≤ 0x0D) || n == 0x20 || n == 0x85 || n == 0xA0 || n == 0x1680
    || (0x2000 ≤ n && n ≤ 0x200A) || n == 0x2028 || n == 0x2029 || n == 0x202F || n == 0x205F
    || n == 0x3000

/-- A text without the white space at its head. -/
def skipWhiteSpace (text : Text) : Text := text.dropWhile isWhiteSpace

/-- The word a text begins with (empty if it begins with white space), and what follows it. -/
def takeWord (text : Text) : Text × Text :=
  (text.takeWhile (!isWhiteSpace ·), text.dropWhile (!isWhiteSpace ·))

/-- The words of a text. -/
def words : Text → List Text
  | [] => []
  | c :: cs =>
    if isWhiteSpace c then words cs
    else (c :: (takeWord cs).1) :: words (takeWord cs).2
termination_by text => text.length
decreasing_by
  · simp
  · simp only [takeWord, List.length_cons]
    have := (List.dropWhile_suffix (l := cs) (!isWhiteSpace ·)).length_le
    omega

end YamlStyle
