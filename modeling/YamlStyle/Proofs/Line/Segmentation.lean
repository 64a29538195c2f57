import Mathlib.Data.List.Chain
import YamlStyle.Proofs.BlankLines.Above

/-!
# The lines of a text are the only ones

`lines` could have been defined otherwise: from the other end, by a search for endings, or by cutting
at every LF and repairing what a CR did. `lines_unique` says that it would have made no difference.
Whoever divides a text into numbered lines that follow one another without a gap, whose contents hold
no break, of which only the last may lack an ending and none is torn out of a CR LF, has divided it as
`lines` does.

The conditions are about a list of lines as a whole, and the proof goes one line at a time: they leave
no choice for the first line (`Segments.head_eq`), and the others are under the same conditions again,
further down (`Segments.tail`). That is why `Segments` speaks of lines that begin *somewhere* in a
document. Where the first line starts is not among the conditions. At the beginning of a document there
is only one place for it, as the lines fill the text (`Segments.start_eq_zero`).
-/

set_option autoImplicit false

namespace YamlStyle

/-- The content of a line and its ending. -/
def Line.whole (l : Line) : Text := l.content ++ l.ending.text

theorem start_add_width_whole (l : Line) : l.start + width l.whole = l.nextStart := by
  rw [Line.whole, width_append, ← Nat.add_assoc]
  rfl

/-- What makes a list of lines a division of `text`, when `before` (nearest character first) stands
above it. A line carries its surroundings with it: `stands` says that they are those of this document
and that there is no break in the content of the line. -/
structure Segments (number : Nat) (before : Text) (ls : List Line) (text : Text) : Prop where
  numbers : ls.map (·.number) = List.range' number ls.length
  stands : ∀ l ∈ ls, l.Stands (before.reverse ++ text)
  join : ls.flatMap Line.whole = text
  starts : ls.IsChain fun l next => next.start = l.nextStart
  ended : ∀ l ∈ ls.dropLast, l.ending ≠ .none
  /-- The last line may have no ending, but then it is not empty. -/
  last : ∀ l ∈ ls.getLast?, l.ending = .none → l.content ≠ []
  /-- A bare CR is not the first half of a CR LF. -/
  bare : ∀ l ∈ ls, l.ending = .cr → l.after.head? ≠ some '\n'

/-! ## The first line -/

theorem split_ending_append {e : Ending} {after : Text} (hnone : e = .none → after = [])
    (hbare : e = .cr → after.head? ≠ some '\n') : Ending.split (e.text ++ after) = (e, after) := by
  cases e with
  | none =>
    rw [hnone rfl]
    rfl
  | lf | crlf => rfl
  | cr => exact Ending.split_cr (hbare rfl)

/-- A content without breaks, an ending and what follows are read back as such. -/
theorem line_division {content after : Text} {e : Ending} (hcontent : ∀ c ∈ content, isBreak c = false)
    (hnone : e = .none → after = []) (hbare : e = .cr → after.head? ≠ some '\n') :
    lineContent (content ++ (e.text ++ after)) = content ∧
      lineEnding (content ++ (e.text ++ after)) = e ∧
      lineBelow (content ++ (e.text ++ after)) = after := by
  have hall : ∀ c ∈ content, (!isBreak c) = true := by
    intro c hc
    simp [hcontent c hc]
  -- Behind the content the text is over, or there is a break.
  have hstop : lineContent (e.text ++ after) = [] ∧ lineRest (e.text ++ after) = e.text ++ after := by
    cases e with
    | none =>
      rw [hnone rfl]
      exact ⟨rfl, rfl⟩
    | lf | crlf | cr => exact ⟨rfl, rfl⟩
  have hrest : lineRest (content ++ (e.text ++ after)) = e.text ++ after := by
    rw [lineRest, List.dropWhile_append_of_pos hall]
    exact hstop.2
  refine ⟨?_, ?_, ?_⟩
  · have hfront : lineContent (content ++ (e.text ++ after)) =
        content ++ lineContent (e.text ++ after) := List.takeWhile_append_of_pos hall
    rw [hfront, hstop.1, List.append_nil]
  · rw [lineEnding, hrest, split_ending_append hnone hbare]
  · rw [lineBelow, hrest, split_ending_append hnone hbare]

theorem head?_lineBelow_of_cr {text : Text} (h : lineEnding text = .cr) :
    (lineBelow text).head? ≠ some '\n' := by
  apply unbroken_lineBelow (by simp [h]) []
  rw [h]
  rfl

/-- The first line of a text that stands below `before`. -/
def firstLine (number : Nat) (before text : Text) : Line :=
  ⟨number, width before.reverse, lineContent text, lineEnding text, before, lineBelow text⟩

/-- What stands above the second line. -/
def aboveSecond (before text : Text) : Text :=
  (lineEnding text).text.reverse ++ ((lineContent text).reverse ++ before)

theorem aboveSecond_append (before text : Text) :
    (aboveSecond before text).reverse ++ lineBelow text = before.reverse ++ text := by
  simp only [aboveSecond, List.reverse_append, List.reverse_reverse, List.append_assoc, line_append]

theorem nextStart_firstLine (number : Nat) (before text : Text) :
    (firstLine number before text).nextStart = width (aboveSecond before text).reverse := by
  simp [aboveSecond, firstLine, Line.nextStart, Line.stop, Nat.add_assoc]

theorem whole_firstLine_append (number : Nat) (before text : Text) :
    (firstLine number before text).whole ++ lineBelow text = text := by
  rw [Line.whole, List.append_assoc]
  exact line_append text

theorem linesFrom_eq_firstLine (number : Nat) (before : Text) {text : Text} (h : text ≠ []) :
    linesFrom number (width before.reverse) before text =
      firstLine number before text ::
        linesFrom (number + 1) (width (aboveSecond before text).reverse) (aboveSecond before text)
          (lineBelow text) := by
  rw [linesFrom_of_ne_nil _ _ _ h, ← nextStart_firstLine number]
  rfl

/-! ## No choice for the first line -/

namespace Segments

variable {number : Nat} {before text : Text} {l : Line} {ls : List Line}

/-- A line that stands where a text begins is a beginning of the text. -/
theorem eq_append_of_stands (h : l.Stands (before.reverse ++ text))
    (hstart : l.start = width before.reverse) :
    l.before = before ∧ text = l.content ++ (l.ending.text ++ l.after) := by
  have hwidth : width before.reverse = width l.before.reverse := hstart.symm.trans h.start
  obtain ⟨hbefore, htext⟩ := append_inj_of_width_eq h.text hwidth
  exact ⟨List.reverse_injective hbefore.symm, htext⟩

theorem head_eq (h : Segments number before (l :: ls) text) (hstart : l.start = width before.reverse) :
    text ≠ [] ∧ l = firstLine number before text := by
  obtain ⟨hbefore, htext⟩ := eq_append_of_stands (h.stands l List.mem_cons_self) hstart
  have hafter : l.after = ls.flatMap Line.whole := by
    have hjoin := h.join
    rw [List.flatMap_cons, Line.whole, List.append_assoc, htext] at hjoin
    exact (List.append_cancel_left (List.append_cancel_left hjoin)).symm
  have halone : l.ending = .none → ls = [] := by
    intro hnone
    cases ls with
    | nil => rfl
    | cons next ls => exact absurd hnone (h.ended l (by simp))
  have hnone : l.ending = .none → l.after = [] := by
    intro hnone
    rw [hafter, halone hnone]
    rfl
  obtain ⟨hcontent, hending, hbelow⟩ :=
    line_division (h.stands l List.mem_cons_self).content hnone (h.bare l List.mem_cons_self)
  have hnumber : l.number = number := by
    have hnumbers := h.numbers
    rw [List.map_cons, List.length_cons, List.range'_succ] at hnumbers
    exact (List.cons.inj hnumbers).1
  constructor
  · -- An empty line without an ending would be the last one, and that is ruled out.
    rintro rfl
    obtain ⟨hempty, hrest⟩ := List.append_eq_nil_iff.mp htext.symm
    have hunended : l.ending = .none := by
      cases he : l.ending with
      | none => rfl
      | lf | crlf | cr => simp [he, Ending.text] at hrest
    exact h.last l (by simp [halone hunended]) hunended hempty
  · rw [firstLine, ← hstart, htext, hcontent, hending, hbelow, ← hbefore, ← hnumber]

theorem tail (h : Segments number before (l :: ls) text) (hl : l = firstLine number before text) :
    Segments (number + 1) (aboveSecond before text) ls (lineBelow text) ∧
      ∀ next ∈ ls.head?, next.start = width (aboveSecond before text).reverse := by
  subst hl
  obtain ⟨hnumbers, hstands, hjoin, hstarts, hended, hlast, hbare⟩ := h
  rw [List.isChain_cons] at hstarts
  refine ⟨⟨?_, ?_, ?_, hstarts.2, ?_, ?_, ?_⟩, ?_⟩
  · rw [List.map_cons, List.length_cons, List.range'_succ] at hnumbers
    exact (List.cons.inj hnumbers).2
  · intro m hm
    rw [aboveSecond_append]
    exact hstands m (List.mem_cons_of_mem _ hm)
  · have hsame : (firstLine number before text).whole ++ ls.flatMap Line.whole =
        (firstLine number before text).whole ++ lineBelow text := by
      rw [← List.flatMap_cons, hjoin, whole_firstLine_append]
    exact List.append_cancel_left hsame
  · intro m hm
    apply hended m
    cases ls with
    | nil => exact absurd hm List.not_mem_nil
    | cons next ls => exact List.mem_cons_of_mem _ hm
  · intro m hm
    apply hlast m
    rw [List.getLast?_cons, Option.mem_def.mp hm]
    rfl
  · intro m hm
    exact hbare m (List.mem_cons_of_mem _ hm)
  · intro next hnext
    rw [hstarts.1 next hnext, nextStart_firstLine]

/-! ## The lines are such a division -/

theorem nil : Segments number before [] [] :=
  ⟨rfl, by simp, rfl, by simp, by simp, by simp, by simp⟩

/-- The first line in front of a division of the text below it. -/
theorem cons (h : Segments (number + 1) (aboveSecond before text) ls (lineBelow text))
    (hstart : ∀ next ∈ ls.head?, next.start = width (aboveSecond before text).reverse)
    (hne : text ≠ []) :
    Segments number before (firstLine number before text :: ls) text where
  numbers := by
    rw [List.map_cons, List.length_cons, List.range'_succ, h.numbers]
    rfl
  stands := by
    intro m hm
    rcases List.mem_cons.mp hm with rfl | hm
    · refine ⟨?_, rfl, fun c hc => isBreak_of_mem_lineContent hc⟩
      show _ = before.reverse ++ (lineContent text ++ ((lineEnding text).text ++ lineBelow text))
      rw [line_append]
    · rw [← aboveSecond_append]
      exact h.stands m hm
  join := by
    rw [List.flatMap_cons, h.join, whole_firstLine_append]
  starts := by
    rw [List.isChain_cons]
    refine ⟨?_, h.starts⟩
    intro next hnext
    rw [hstart next hnext, nextStart_firstLine]
  ended := by
    cases ls with
    | nil => simp
    | cons next ls =>
      intro m hm
      rcases List.mem_cons.mp hm with rfl | hm
      · -- A line follows, so something stands below the first one.
        intro hnone
        exact (h.head_eq (hstart next rfl)).1 (lineBelow_of_no_ending hnone)
      · exact h.ended m hm
  last := by
    cases ls with
    | nil =>
      intro m hm hnone hempty
      obtain rfl := Option.some.inj hm
      have htext := line_append text
      rw [show lineContent text = [] from hempty, show lineEnding text = .none from hnone,
        lineBelow_of_no_ending hnone] at htext
      exact hne htext.symm
    | cons next ls =>
      rw [List.getLast?_cons_cons]
      exact h.last
  bare := by
    intro m hm
    rcases List.mem_cons.mp hm with rfl | hm
    · exact head?_lineBelow_of_cr
    · exact h.bare m hm

theorem head_start_linesFrom (number : Nat) (before text : Text) :
    ∀ l ∈ (linesFrom number (width before.reverse) before text).head?,
      l.start = width before.reverse := by
  intro l hl
  by_cases hne : text = []
  · rw [hne, linesFrom] at hl
    exact absurd hl (by simp)
  · rw [linesFrom_eq_firstLine _ _ hne] at hl
    obtain rfl := Option.some.inj hl
    rfl

theorem linesFrom (number : Nat) (before text : Text) :
    Segments number before (linesFrom number (width before.reverse) before text) text := by
  induction text using line_induction generalizing number before with
  | nil =>
    rw [YamlStyle.linesFrom]
    exact nil
  | line text hne ih =>
    rw [linesFrom_eq_firstLine _ _ hne]
    exact cons (ih _ _) (head_start_linesFrom _ _ _) hne

/-! ## And the only one -/

theorem eq_linesFrom (h : Segments number before ls text)
    (hstart : ∀ l ∈ ls.head?, l.start = width before.reverse) :
    ls = YamlStyle.linesFrom number (width before.reverse) before text := by
  induction ls generalizing number before text with
  | nil =>
    obtain rfl : [] = text := h.join
    rw [YamlStyle.linesFrom]
  | cons l ls ih =>
    obtain ⟨hne, hl⟩ := h.head_eq (hstart l rfl)
    obtain ⟨hrest, hnext⟩ := h.tail hl
    rw [linesFrom_eq_firstLine _ _ hne, ← hl, ← ih hrest hnext]

/-- Lines without gaps reach as far as they are wide. -/
theorem nextStart_getLast (h : (l :: ls).IsChain fun l next => next.start = l.nextStart) :
    ((l :: ls).getLast (by simp)).nextStart = l.start + width ((l :: ls).flatMap Line.whole) := by
  induction ls generalizing l with
  | nil => simp [← start_add_width_whole]
  | cons next ls ih =>
    obtain ⟨hnext, hrest⟩ := List.isChain_cons_cons.mp h
    rw [List.getLast_cons (by simp), ih hrest, hnext, ← start_add_width_whole]
    simp only [List.flatMap_cons, width_append]
    omega

theorem start_eq_zero (h : Segments number [] ls text) : ∀ l ∈ ls.head?, l.start = 0 := by
  intro l hl
  cases ls with
  | nil => exact absurd hl (by simp)
  | cons first ls =>
    obtain rfl := Option.some.inj hl
    have hreach := nextStart_getLast h.starts
    have hstands := h.stands _ (List.getLast_mem (l := first :: ls) (by simp))
    have hwidth := congrArg width hstands.text
    rw [h.join, hstands.nextStart_eq] at hreach
    simp only [width_append, List.reverse_nil, List.nil_append] at hwidth hreach
    omega

end Segments

/-! ## Counting -/

instance : DecidablePred EndsLine := fun text =>
  decidable_of_iff (text.getLast?.any isBreak = true) <| by
    rw [Option.any_eq_true]
    constructor
    · rintro ⟨b, hlast, hb⟩
      obtain ⟨front, hfront⟩ := List.getLast?_eq_some_iff.mp hlast
      exact ⟨front, b, hfront, hb⟩
    · rintro ⟨front, b, rfl, hb⟩
      exact ⟨b, by simp, hb⟩

/-- The number of endings of a text, of which each takes what it can get. -/
def endingCount : Text → Nat
  | [] => 0
  | '\r' :: '\n' :: rest => endingCount rest + 1
  | c :: rest => endingCount rest + if isBreak c then 1 else 0

theorem endingCount_append {content : Text} (h : ∀ c ∈ content, isBreak c = false) (rest : Text) :
    endingCount (content ++ rest) = endingCount rest := by
  induction content with
  | nil => rfl
  | cons c content ih =>
    have hc := h c List.mem_cons_self
    have hrest := ih fun d hd => h d (List.mem_cons_of_mem _ hd)
    rw [List.cons_append, endingCount]
    · rw [hrest, hc]
      rfl
    · rintro tail rfl
      exact absurd hc (by decide)

theorem endingCount_ending {e : Ending} {after : Text} (hbare : e = .cr → after.head? ≠ some '\n') :
    endingCount (e.text ++ after) = endingCount after + if e = .none then 0 else 1 := by
  cases e with
  | none => rfl
  | lf => rfl
  | crlf => rfl
  | cr =>
    show endingCount ('\r' :: after) = _
    rw [endingCount]
    · rfl
    · rintro rest - rfl
      exact hbare rfl rfl

theorem endingCount_line (text : Text) : endingCount text =
    endingCount (lineBelow text) + if lineEnding text = .none then 0 else 1 := by
  have hcontent : ∀ c ∈ lineContent text, isBreak c = false :=
    fun c hc => isBreak_of_mem_lineContent hc
  have hcount := endingCount_append hcontent ((lineEnding text).text ++ lineBelow text)
  rw [line_append] at hcount
  rw [hcount]
  exact endingCount_ending head?_lineBelow_of_cr

/-- Whether a text ends a line is decided below its first line, unless nothing is there. -/
theorem endsLine_iff (text : Text) : EndsLine text ↔
    EndsLine (lineBelow text) ∨ lineBelow text = [] ∧ lineEnding text ≠ .none := by
  have htext := line_append text
  constructor
  · intro h
    by_cases hbelow : lineBelow text = []
    · refine Or.inr ⟨hbelow, ?_⟩
      intro hnone
      rw [hnone, hbelow] at htext
      obtain ⟨b, hmem, hb⟩ := h.exists_break
      rw [← htext, Ending.text, List.append_nil, List.append_nil] at hmem
      rw [isBreak_of_mem_lineContent hmem] at hb
      exact absurd hb (by simp)
    · exact Or.inl (h.below hbelow)
  · rintro (hends | ⟨hbelow, hending⟩)
    · rw [← htext]
      exact (hends.append _).append _
    · rw [hbelow, List.append_nil] at htext
      rw [← htext]
      exact (Ending.endsLine hending).append _

theorem length_linesFrom (number start : Nat) (before text : Text) :
    (linesFrom number start before text).length =
      endingCount text + if text = [] ∨ EndsLine text then 0 else 1 := by
  induction text using line_induction generalizing number start before with
  | nil => simp [linesFrom, endingCount]
  | line text hne ih =>
    rw [linesFrom_of_ne_nil _ _ _ hne, List.length_cons, ih, endingCount_line text]
    have hends := endsLine_iff text
    by_cases hbelow : lineBelow text = []
    · have hnil : ¬ EndsLine [] := fun h => h.ne_nil rfl
      by_cases hnone : lineEnding text = .none
      · simp [hends, hbelow, hnone, hne, hnil]
      · simp [hends, hbelow, hnone]
    · have hnone : lineEnding text ≠ .none := fun h => hbelow (lineBelow_of_no_ending h)
      simp only [hbelow, hends, hne, hnone, false_or, false_and, or_false, if_false]
      omega

/-! ## The theorem -/

/-- **The lines of a text are its only division into lines.** Their number is that of the endings, and
one more if something stands behind the last ending, and they are cut between characters. -/
theorem lines_unique (text : Text) :
    (∀ ls, Segments 1 [] ls text ↔ ls = lines text) ∧
      (lines text).length = endingCount text + (if text = [] ∨ EndsLine text then 0 else 1) ∧
      ∀ l ∈ lines text, isBoundary text l.start = true ∧ isBoundary text l.stop = true ∧
        isBoundary text l.nextStart = true := by
  refine ⟨?_, length_linesFrom 1 0 [] text, ?_⟩
  · intro ls
    constructor
    · intro h
      exact h.eq_linesFrom h.start_eq_zero
    · rintro rfl
      exact Segments.linesFrom 1 [] text
  · intro l hl
    exact (stands_of_mem_lines hl).boundaries

end YamlStyle
