import YamlStyle.Proofs.Line.Below
import YamlStyle.Proofs.Scanner.Tiling

/-!
# The body of a block scalar, read off the text

`bodyLength` walks over the lines below a header. A `Line` knows its number, its offset and its
surroundings, none of which the walk looks at, so the lines of one and the same text count the same
wherever the text stands. `bodyFrom` is the walk over a *text*, one line at a time, and the proofs
about block scalars are inductions over it.

A body **finishes** if a line below the header is neither hollow nor indented deep enough. Then it is
that line which ends the body, and nothing after it matters. A body that does not finish takes
everything to the end of the document except layout.
-/

set_option autoImplicit false

namespace YamlStyle

theorem isLayout_of_mem_ending {e : Ending} {c : Char} (h : c ∈ e.text) : isLayout c = true := by
  simp [isLayout, isBreak_of_mem_ending h]

namespace Scanner

/-! ## The walk over a text -/

/-- Where a text stands does not matter to the body of a block scalar. -/
theorem bodyLength_linesFrom (indent pending number start : Nat) (before text : Text)
    (number' start' : Nat) (before' : Text) :
    bodyLength indent pending (linesFrom number start before text) =
      bodyLength indent pending (linesFrom number' start' before' text) := by
  by_cases hne : text = []
  · subst hne
    simp [linesFrom]
  · rw [linesFrom_of_ne_nil _ _ _ hne, linesFrom_of_ne_nil _ _ _ hne]
    have ih := fun pending n s b n' s' b' =>
      bodyLength_linesFrom indent pending n s b (lineBelow text) n' s' b'
    simp only [bodyLength, isHollow]
    rw [ih]
termination_by text.length
decreasing_by exact length_lineBelow_lt hne

/-- How far the body of a block scalar reaches into a text, when `pending` characters of an ending
stand between the text and what was read. -/
def bodyFrom (indent pending : Nat) (text : Text) : Nat := bodyLength indent pending (lines text)

@[simp] theorem bodyFrom_nil (indent pending : Nat) : bodyFrom indent pending [] = 0 := by
  simp [bodyFrom, lines, linesFrom, bodyLength]

/-- Whether the first line of a text holds nothing but spaces. -/
def hollowFirst (text : Text) : Bool :=
  leadingSpaces (lineContent text) == (lineContent text).length

theorem isLayout_of_mem_hollow {text : Text} (h : hollowFirst text = true) {c : Char}
    (hc : c ∈ lineContent text) : isLayout c = true := by
  have hlength : ((lineContent text).takeWhile (· == ' ')).length = (lineContent text).length := by
    simpa [hollowFirst, leadingSpaces] using h
  have htake := List.IsPrefix.eq_of_length (List.takeWhile_prefix _) hlength
  rw [← htake] at hc
  have hspace : c = ' ' := by simpa using List.mem_takeWhile_imp hc
  rw [hspace]
  decide

theorem bodyFrom_of_ne_nil (indent pending : Nat) {text : Text} (h : text ≠ []) :
    bodyFrom indent pending text =
      if hollowFirst text then
        match bodyFrom indent (lineEnding text).text.length (lineBelow text) with
        | 0 => 0
        | n + 1 => pending + (lineContent text).length + (n + 1)
      else if indent < leadingSpaces (lineContent text) then
        pending + (lineContent text).length +
          bodyFrom indent (lineEnding text).text.length (lineBelow text)
      else 0 := by
  rw [bodyFrom, lines, linesFrom_of_ne_nil _ _ _ h]
  simp only [bodyLength, isHollow]
  rw [bodyLength_linesFrom indent _ _ _ _ (lineBelow text) 1 0 []]
  rfl

theorem blockLength_eq (indent : Nat) (rest : Text) :
    blockLength indent rest = (lineContent rest).length +
      bodyFrom indent (lineEnding rest).text.length (lineBelow rest) := rfl

theorem drop_append_length_add {α : Type} (front back : List α) (n : Nat) :
    (front ++ back).drop (front.length + n) = back.drop n := by
  rw [← List.drop_drop, List.drop_left]

/-- What a block scalar leaves is what its body leaves of the ending of the header line and of the
text below. -/
theorem drop_blockLength (indent : Nat) (rest : Text) :
    rest.drop (blockLength indent rest) =
      ((lineEnding rest).text ++ lineBelow rest).drop
        (bodyFrom indent (lineEnding rest).text.length (lineBelow rest)) := by
  have hdrop := drop_append_length_add (lineContent rest)
    ((lineEnding rest).text ++ lineBelow rest)
    (bodyFrom indent (lineEnding rest).text.length (lineBelow rest))
  rwa [line_append, ← blockLength_eq] at hdrop

/-- Past the first line of a text, a body goes on with the ending of that line above it. -/
theorem drop_body (above text : Text) (n : Nat) :
    (above ++ text).drop (above.length + (lineContent text).length + n) =
      ((lineEnding text).text ++ lineBelow text).drop n := by
  have hdrop := drop_append_length_add (above ++ lineContent text)
    ((lineEnding text).text ++ lineBelow text) n
  rwa [List.append_assoc, line_append, List.length_append] at hdrop

/-! ## Bodies that finish -/

/-- Some line of the text is neither hollow nor indented deeper than the header. -/
inductive Finishes (indent : Nat) : Text → Prop
  | here {text : Text} : hollowFirst text = false → leadingSpaces (lineContent text) ≤ indent →
      Finishes indent text
  | later {text : Text} : text ≠ [] → Finishes indent (lineBelow text) → Finishes indent text

variable {indent : Nat} {text : Text}

theorem Finishes.ne_nil (h : Finishes indent text) : text ≠ [] := by
  cases h with
  | here hhollow _ =>
    rintro rfl
    exact absurd hhollow (by decide)
  | later hne _ => exact hne

/-- A body that finishes does not look past the text. -/
theorem Finishes.bodyFrom_append (h : Finishes indent text) (hends : EndsLine text) (pending : Nat)
    (back : Text) : bodyFrom indent pending (text ++ back) = bodyFrom indent pending text := by
  induction h generalizing pending with
  | @here text hhollow hindent =>
    have hcontent := hends.lineContent_append back
    rw [bodyFrom_of_ne_nil _ _ (by simp [hends.ne_nil]), bodyFrom_of_ne_nil _ _ hends.ne_nil,
      hollowFirst, hcontent, ← hollowFirst]
    simp [hhollow, Nat.not_lt.mpr hindent]
  | @later text hne hfin ih =>
    rw [bodyFrom_of_ne_nil _ _ (by simp [hne]), bodyFrom_of_ne_nil _ _ hne, hollowFirst,
      hends.lineContent_append back, ← hollowFirst, hends.lineEnding_append hfin.ne_nil,
      hends.lineBelow_append hfin.ne_nil, ih (hends.below hfin.ne_nil)]

/-- The line that finishes a body is left. -/
theorem Finishes.drop_ne_nil (h : Finishes indent text) (above : Text) :
    (above ++ text).drop (bodyFrom indent above.length text) ≠ [] := by
  induction h generalizing above with
  | @here text hhollow hindent =>
    have hne := (Finishes.here hhollow hindent).ne_nil
    rw [bodyFrom_of_ne_nil _ _ hne]
    simp [hhollow, Nat.not_lt.mpr hindent, hne]
  | @later text hne hfin ih =>
    have hrest := ih (lineEnding text).text
    rw [bodyFrom_of_ne_nil _ _ hne]
    split
    · split
      · simp [hne]
      · rename_i n hn
        rwa [hn, ← drop_body above text] at hrest
    · split
      · rwa [← drop_body above text] at hrest
      · simp [hne]

/-- A body that does not finish leaves nothing but layout. -/
theorem isLayout_of_not_finishes (h : ¬ Finishes indent text) {above : Text}
    (habove : ∀ c ∈ above, isLayout c = true) :
    ∀ c ∈ (above ++ text).drop (bodyFrom indent above.length text), isLayout c = true := by
  induction text using line_induction generalizing above with
  | nil => simpa using habove
  | line text hne ih =>
    have hbelow : ¬ Finishes indent (lineBelow text) := fun hfin => h (.later hne hfin)
    have hrest := ih hbelow fun c (hc : c ∈ (lineEnding text).text) => isLayout_of_mem_ending hc
    rw [bodyFrom_of_ne_nil _ _ hne]
    split
    · rename_i hhollow
      split
      · -- Nothing below is part of the body, so the hollow line is not either, and all is left.
        rename_i hzero
        rw [hzero, List.drop_zero] at hrest
        intro c hc
        rw [List.drop_zero, ← line_append text] at hc
        rcases List.mem_append.mp hc with hc | hc
        · exact habove c hc
        · rcases List.mem_append.mp hc with hc | hc
          · exact isLayout_of_mem_hollow hhollow hc
          · exact hrest c hc
      · rename_i n hn
        rw [drop_body]
        rwa [hn] at hrest
    · rename_i hhollow
      split
      · rw [drop_body]
        exact hrest
      · rename_i hindent
        exact absurd (.here (Bool.not_eq_true _ ▸ hhollow) (Nat.le_of_not_lt hindent)) h

end Scanner

end YamlStyle
