import Mathlib.Data.List.DropRight
import Mathlib.Data.List.Forall2
import YamlStyle.Proofs.BlankLines.Runs
import YamlStyle.Proofs.Line.Locate
import YamlStyle.Proofs.Scanner.Shape
import YamlStyle.Rule.TrailingSpaces

/-!
# Blanks at the ends of lines

`trailing-spaces` is a rule with a remedy: take the blanks off the end of every line. The two belong
together (`report_stripped`). What is reported are the lines that the remedy would change, each at the
column where it would cut, and of what comes out of it nothing is reported.

The second half is no matter of course. What comes out is a text like any other and has lines of its
own. They need not be the old ones: a line of blanks without an ending is gone, and if a line of blanks
stood between a CR and an LF, these are one ending now. So the remedy is judged by the text. A text is
**tidy** if no blank stands right before a break or at the end (`Tidy`). It stays tidy if a stripped
line is put in front, and the lines of a tidy text end in no blanks, whichever they are.
-/

set_option autoImplicit false

namespace YamlStyle

/-- The content of a line without the blanks at its end. -/
def Line.stripped (l : Line) : Text := l.content.rdropWhile isBlank

/-- Whether the content of a line ends in a blank. -/
def Line.endsInBlank (l : Line) : Bool := l.content.getLast?.any isBlank

/-- A text with the blanks taken off the ends of its lines. -/
def stripLines (text : Text) : Text := (lines text).flatMap fun l => l.stripped ++ l.ending.text

theorem stripBlanks_concat (text : Text) (c : Char) :
    stripBlanks (text ++ [c]) = if isBlank c then stripBlanks text else text ++ [c] := by
  induction text with
  | nil => rfl
  | cons d text ih =>
    rw [List.cons_append, stripBlanks, ih]
    by_cases hc : isBlank c = true
    · rw [if_pos hc, if_pos hc]
      rfl
    · rw [if_neg hc, if_neg hc]
      cases text <;> rfl

theorem stripBlanks_eq_rdropWhile (text : Text) : stripBlanks text = text.rdropWhile isBlank := by
  induction text using List.reverseRecOn with
  | nil => rfl
  | append_singleton text c ih => rw [stripBlanks_concat, List.rdropWhile_concat, ih]

theorem Line.endsInBlank_iff (l : Line) : l.endsInBlank = true ↔ l.stripped ≠ l.content := by
  unfold Line.endsInBlank Line.stripped
  rcases List.eq_nil_or_concat l.content with hnil | ⟨front, c, hcontent⟩
  · simp [hnil]
  · rw [hcontent, List.concat_eq_append, List.rdropWhile_concat, List.getLast?_concat, Option.any_some]
    cases hc : isBlank c with
    | true =>
      have hshorter : front.rdropWhile isBlank ≠ front ++ [c] := by
        intro hsame
        have hle := (List.rdropWhile_prefix isBlank front).length_le
        rw [hsame, List.length_append] at hle
        exact Nat.not_succ_le_self _ hle
      simpa using hshorter
    | false => simp

/-! ## Tidy texts -/

/-- Behind every blank is a character that is no break. -/
def Tidy (text : Text) : Prop :=
  ∀ front b rest, text = front ++ b :: rest → isBlank b = true → ∃ c ∈ rest.head?, isBreak c = false

theorem tidy_nil : Tidy [] := by
  intro front b rest htext
  exact absurd htext (by simp)

theorem Tidy.line {content after : Text} (h : Tidy after) (e : Ending)
    (hflat : ∀ c ∈ content, isBreak c = false) (hlast : ∀ c ∈ content.getLast?, isBlank c = false) :
    Tidy (content ++ (e.text ++ after)) := by
  intro front b rest htext hb
  rcases char_append_cases htext with ⟨inner, rfl⟩ | ⟨front', rfl, hrest⟩
  · -- On the line itself, where the blank is not the last character.
    rw [List.append_assoc, List.cons_append] at htext
    obtain rfl := (List.cons.inj (List.append_cancel_left htext)).2
    cases inner with
    | nil =>
      rw [hlast b (by simp)] at hb
      exact absurd hb (by simp)
    | cons c inner =>
      refine ⟨c, rfl, hflat c ?_⟩
      simp
  · rcases char_append_cases hrest with ⟨inner, hending⟩ | ⟨front', rfl, hbelow⟩
    · have hbreak : isBreak b = true := isBreak_of_mem_ending (by rw [hending]; simp)
      rw [not_isBlank_of_isBreak hbreak] at hb
      exact absurd hb (by simp)
    · exact h front' b rest hbelow hb

/-- What comes out of stripping every line is tidy. -/
theorem tidy_stripLines (text : Text) : Tidy (stripLines text) := by
  unfold stripLines lines
  -- Which lines they are, where they stand and what is around them does not matter.
  generalize (1 : Nat) = number, (0 : Nat) = start, ([] : Text) = before
  induction text using line_induction generalizing number start before with
  | nil =>
    rw [linesFrom]
    exact tidy_nil
  | line text hne ih =>
    rw [linesFrom_of_ne_nil _ _ _ hne, List.flatMap_cons, List.append_assoc]
    apply (ih _ _ _).line
    · intro c hc
      apply isBreak_of_mem_lineContent
      exact (List.rdropWhile_prefix isBlank _).subset hc
    · intro c hc
      obtain ⟨hstripped, rfl⟩ := List.mem_getLast?_eq_getLast hc
      exact Bool.eq_false_iff.mpr (List.rdropWhile_last_not isBlank _ hstripped)

namespace TrailingSpaces

/-- What is said of a line that ends in blanks: where the blanks begin, counted in characters of the
line or looked up by the bytes before them. -/
structure Reports (l : Line) (v : Violation) : Prop where
  line : v.line = l.number
  front : l.content.take (v.column - 1) = l.stripped
  column : 1 ≤ v.column ∧ v.column ≤ l.content.length
  offset : l.columnOf (l.start + width l.stripped) = v.column
  message : v.message = "trailing spaces"

theorem columnOf_stripped (l : Line) : l.columnOf (l.start + width l.stripped) = l.stripped.length + 1 := by
  have hcontent : l.content = l.stripped ++ l.content.rtakeWhile isBlank :=
    (List.rdropWhile_append_rtakeWhile ..).symm
  rw [Line.columnOf, if_pos (Nat.le_add_right _ _), Nat.add_sub_cancel_left]
  nth_rewrite 1 [hcontent]
  rw [List.append_assoc, List.append_assoc, splitAt?_width]

theorem check_eq (l : Line) :
    check l = if l.endsInBlank then some ⟨l.number, l.stripped.length + 1, "trailing spaces"⟩
      else none := by
  have hlength : (stripBlanks l.content).length = l.content.length ↔ ¬ l.endsInBlank = true := by
    rw [l.endsInBlank_iff, ne_eq, not_not, stripBlanks_eq_rdropWhile]
    constructor
    · intro hlength
      exact (List.rdropWhile_prefix isBlank l.content).eq_of_length hlength
    · intro hsame
      exact congrArg List.length hsame
  unfold check
  by_cases hblank : l.endsInBlank = true
  · rw [if_pos hblank, if_neg (fun h => hlength.mp h hblank), stripBlanks_eq_rdropWhile]
    rfl
  · rw [if_neg hblank, if_pos (hlength.mpr hblank)]

theorem reports_of_endsInBlank {l : Line} (h : l.endsInBlank = true) :
    Reports l ⟨l.number, l.stripped.length + 1, "trailing spaces"⟩ := by
  have hstripped : l.stripped <+: l.content := List.rdropWhile_prefix isBlank l.content
  refine ⟨rfl, ?_, ⟨Nat.le_add_left 1 _, ?_⟩, columnOf_stripped l, rfl⟩
  · exact (List.prefix_iff_eq_take.mp hstripped).symm
  · apply Nat.lt_of_le_of_ne hstripped.length_le
    intro hlength
    exact l.endsInBlank_iff.mp h (hstripped.eq_of_length hlength)

/-- The lines that end in blanks are reported one after the other. -/
theorem forall₂_reports (ls : List Line) :
    List.Forall₂ Reports (ls.filter Line.endsInBlank) (ls.filterMap check) := by
  induction ls with
  | nil => exact .nil
  | cons l ls ih =>
    rw [List.filter_cons, List.filterMap_cons, check_eq]
    cases hblank : l.endsInBlank with
    | true => exact .cons (reports_of_endsInBlank hblank) ih
    | false => exact ih

/-- No line of a tidy text ends in a blank. -/
theorem check_of_tidy {text : Text} (h : Tidy text) {l : Line} (hl : l ∈ lines text) :
    check l = none := by
  rw [check_eq, if_neg]
  intro hblank
  obtain ⟨b, hlast, hb⟩ := (Option.any_eq_true _ _).mp hblank
  obtain ⟨inner, hcontent⟩ := List.getLast?_eq_some_iff.mp hlast
  have htext := (stands_of_mem_lines hl).text
  rw [hcontent, List.append_assoc, List.singleton_append, ← List.append_assoc] at htext
  obtain ⟨c, hc, hbreak⟩ := h _ b _ htext hb
  -- Behind the content is an ending, or there is nothing.
  cases hending : l.ending with
  | none =>
    rw [hending, after_of_no_ending hl hending] at hc
    exact absurd hc (by simp [Ending.text])
  | lf | crlf | cr =>
    rw [hending] at hc
    obtain rfl := Option.some.inj hc
    exact absurd hbreak (by decide)

/-- **The lines that stripping would change are reported, and stripping cures them.** -/
theorem report_stripped (text : Text) (stream : Option TokenStream) (options : RuleOptions) :
    (∃ found, runRule text stream rule options =
        found.map (Problem.ofViolation rule.id options.level) ∧
      List.Forall₂ Reports ((lines text).filter Line.endsInBlank) found) ∧
      (∀ l ∈ lines text, l.endsInBlank = true ↔ l.stripped ≠ l.content) ∧
      runRule (stripLines text) stream rule options = [] := by
  refine ⟨⟨_, runRule_of_line rfl text stream, forall₂_reports (lines text)⟩,
    fun l _ => l.endsInBlank_iff, ?_⟩
  have hnone : (lines (stripLines text)).filterMap check = [] := by
    apply List.filterMap_eq_nil_iff.mpr
    intro l hl
    exact check_of_tidy (tidy_stripLines text) hl
  rw [runRule_of_line rfl, hnone, List.map_nil]

-- Stripping joins the CR and the LF, and the last line is gone.
example : stripLines "a \r \t\n  ".toList = "a\r\n".toList := by decide +kernel

end TrailingSpaces

end YamlStyle
