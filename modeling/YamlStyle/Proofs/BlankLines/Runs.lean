import YamlStyle.Proofs.BlankLines.Above
import YamlStyle.Proofs.Rule.Answers

/-!
# Runs of blank lines

A run of blank lines is to be reported once, on its last line. The rule looks at one line at a time
and asks the characters below it whether the run goes on, and where a blank line ends in another way
than the next one, or in a bare CR, the answer is no. Such a line is taken for the last of its run,
and it is reported if there are too many blank lines *up to here*.

`check_in_run` says what the rule makes of a line in the midst of a run and of the last one.
`report_run_iff` draws the line: a run is reported as it should be exactly if no line within it is
taken for the last while the count is over the limit already. `report_run_twice` shows a run that
is reported twice.
-/

set_option autoImplicit false

namespace YamlStyle

/-- An empty line that has an ending. -/
def Line.IsBlank (l : Line) : Prop := l.isEmpty = true ∧ l.isTerminated = true

instance (l : Line) : Decidable l.IsBlank := inferInstanceAs (Decidable (_ ∧ _))

/-- Only the last line can do without an ending. -/
theorem after_of_no_ending {before text : Text} {number start : Nat} {l : Line}
    (h : l ∈ linesFrom number start before text) (hending : l.ending = .none) : l.after = [] := by
  induction text using line_induction generalizing number start before with
  | nil =>
    rw [linesFrom] at h
    exact absurd h List.not_mem_nil
  | line text hne ih =>
    rw [linesFrom_of_ne_nil _ _ _ hne] at h
    rcases List.mem_cons.mp h with rfl | h
    · exact lineBelow_of_no_ending hending
    · exact ih h

namespace EmptyLines

variable {text : Text} {above run front back below : List Line} {l : Line}

theorem isEmpty_after (h : lines text = above ++ l :: below) : l.after.isEmpty = below.isEmpty := by
  obtain ⟨-, before, hbelow⟩ := linesFrom_below h
  rw [hbelow]
  by_cases hafter : l.after = []
  · rw [hafter, linesFrom]
    rfl
  · rw [linesFrom_of_ne_nil _ _ _ hafter]
    simpa using hafter

theorem isTerminated_of_below (h : lines text = above ++ l :: below) (hbelow : below ≠ []) :
    l.isTerminated = true := by
  by_contra hopen
  have hending : l.ending = .none := by simpa [Line.isTerminated] using hopen
  have hmem : l ∈ linesFrom 1 0 [] text := by
    rw [show linesFrom 1 0 [] text = _ from h]
    simp
  have hempty := isEmpty_after h
  rw [after_of_no_ending hmem hending] at hempty
  exact hbelow (List.isEmpty_iff.mp hempty.symm)

/-- What the rule finds in a document is what it says of its lines. -/
theorem runRule_eq_filterMap (text : Text) (stream : Option TokenStream) (options : RuleOptions) :
    runRule text stream rule options =
      ((lines text).filterMap (check (.ofOptions options))).map
        (Problem.ofViolation rule.id options.level) :=
  runRule_of_line rfl text stream

/-! ## Runs -/

/-- A run of blank lines with no blank line next to it. -/
structure IsRun (text : Text) (above run below : List Line) : Prop where
  lines : lines text = above ++ (run ++ below)
  ne_nil : run ≠ []
  blank : ∀ l ∈ run, l.IsBlank
  starts : ∀ l ∈ above.getLast?, ¬ l.IsBlank
  stops : ∀ l ∈ below.head?, ¬ l.IsBlank

namespace IsRun

theorem lines_eq (h : IsRun text above run below) (hrun : run = front ++ l :: back) :
    YamlStyle.lines text = (above ++ front) ++ l :: (back ++ below) := by
  rw [h.lines, hrun]
  simp

/-- The line above a run is not empty: it has an ending, and is not blank. -/
theorem not_isEmpty_getLast? (h : IsRun text above run below) (hl : l ∈ above.getLast?) :
    l.isEmpty = false := by
  obtain ⟨front, rfl⟩ := List.getLast?_eq_some_iff.mp hl
  have hlines := h.lines
  rw [List.append_assoc, List.singleton_append] at hlines
  have hterminated := isTerminated_of_below hlines (by simp [h.ne_nil])
  rw [← Bool.not_eq_true]
  intro hempty
  exact h.starts l hl ⟨hempty, hterminated⟩

theorem all_above (h : IsRun text above run below) : above.all Line.isEmpty = above.isEmpty := by
  rcases List.eq_nil_or_concat above with rfl | ⟨rest, l, rfl⟩
  · rfl
  · have hl := h.not_isEmpty_getLast? (l := l) (by simp)
    simp [hl]

theorem emptyTail_above (h : IsRun text above run below) : emptyTail above = 0 := by
  rcases List.eq_nil_or_concat above with rfl | ⟨rest, l, rfl⟩
  · rfl
  · have hl := h.not_isEmpty_getLast? (l := l) (by simp)
    rw [List.concat_eq_append, emptyTail_concat, hl]
    rfl

theorem isEmpty_of_mem_front (h : IsRun text above run below) (hrun : run = front ++ back)
    (hl : l ∈ front) : l.isEmpty = true :=
  (h.blank l (hrun ▸ List.mem_append_left back hl)).1

theorem emptyTail_front (h : IsRun text above run below) (hrun : run = front ++ back) :
    emptyTail (above ++ front) = front.length := by
  have htail := h.emptyTail_above
  rw [emptyTail] at htail ⊢
  rw [List.reverse_append, List.takeWhile_append_of_pos, List.length_append, List.length_reverse,
    htail, Nat.add_zero]
  intro l hl
  exact h.isEmpty_of_mem_front hrun (List.mem_reverse.mp hl)

end IsRun

/-- What the rule makes of a line of a run. -/
theorem check_in_run (limits : Limits) (h : IsRun text above run below)
    (hrun : run = front ++ l :: back) :
    check limits l =
      if continues l = false ∧ ((above ++ front).isEmpty && (back ++ below).isEmpty) = false ∧
          limits.due above.isEmpty (back ++ below).isEmpty < (front.length + 1 : Nat) then
        some (tooMany l (front.length + 1) (limits.due above.isEmpty (back ++ below).isEmpty))
      else none := by
  have hlines := h.lines_eq hrun
  have hblank := h.blank l (by simp [hrun])
  have hcount : emptyTail ((above ++ front) ++ [l]) = front.length + 1 := by
    rw [emptyTail_concat, if_pos hblank.1, h.emptyTail_front hrun]
  have hall : (above ++ front).all Line.isEmpty = above.isEmpty := by
    have hfront : front.all Line.isEmpty = true := by
      rw [List.all_eq_true]
      intro l' hl'
      exact h.isEmpty_of_mem_front hrun hl'
    rw [List.all_append, h.all_above, hfront, Bool.and_true]
  rw [check_of_blank limits hlines hblank.1 hblank.2, isEmpty_after hlines, hcount, hall]

/-! ## When a run is reported once -/

/-- The one thing to be said of a run, if it is too long: it is about its last line. Of a document that
is nothing but an ending there is nothing to say. -/
def verdict (limits : Limits) (above run below : List Line) : List Violation :=
  let limit := limits.due above.isEmpty below.isEmpty
  if above.isEmpty && run.length == 1 && below.isEmpty then []
  else if limit < run.length then
    [⟨above.length + run.length, 1, s!"too many blank lines ({run.length} >= {limit})"⟩]
  else []

theorem check_last (limits : Limits) (h : IsRun text above run below) (hrun : run = front ++ [l]) :
    (check limits l).toList = verdict limits above run below := by
  have hlines := h.lines_eq hrun
  have hstops : continues l = false := by
    rw [← Bool.not_eq_true, continues_iff_goesOn hlines, List.nil_append]
    rintro ⟨next, hnext, hempty, halike⟩
    refine h.stops next hnext ⟨hempty, ?_⟩
    rcases halike with ⟨-, hending⟩ | ⟨-, hending⟩ <;> simp [Line.isTerminated, hending]
  have hnumber := (linesFrom_below hlines).1
  have hlast : above.length + run.length = l.number := by
    rw [hnumber, hrun]
    simp
    omega
  have halone : ((above ++ front).isEmpty && below.isEmpty) =
      (above.isEmpty && run.length == 1 && below.isEmpty) := by
    rw [hrun]
    cases above <;> cases front <;> cases below <;> simp
  have hlength : run.length = front.length + 1 := by simp [hrun]
  rw [check_in_run limits h hrun, hstops, List.nil_append, halone, verdict, hlast, ← hlength]
  cases above.isEmpty && run.length == 1 && below.isEmpty with
  | true => simp
  | false =>
    by_cases hmore : limits.due above.isEmpty below.isEmpty < run.length
    · simp [hmore, tooMany]
    · simp [hmore]

theorem check_inner_eq_none_iff (limits : Limits) (h : IsRun text above run below) {next : Line}
    (hrun : run = front ++ l :: next :: back) :
    check limits l = none ↔
      Alike l next ∨ (front.length + 1 : Nat) ≤ limits.due above.isEmpty false := by
  have hnext := h.blank next (by simp [hrun])
  have hgoes : continues l = true ↔ Alike l next := by
    rw [continues_iff_goesOn (h.lines_eq hrun)]
    constructor
    · rintro ⟨other, hother, -, halike⟩
      obtain rfl := Option.some.inj hother
      exact halike
    · intro halike
      exact ⟨next, rfl, hnext.1, halike⟩
  rw [check_in_run limits h hrun, ← hgoes]
  cases continues l with
  | true => simp
  | false => simp

/-- The lines of a run that are not its last are those with a line of the run below them. -/
theorem mem_init_iff {init : List Line} {last : Line} (hrun : run = init ++ [last]) :
    l ∈ init ↔ ∃ front next back, run = front ++ l :: next :: back := by
  constructor
  · intro hl
    obtain ⟨front, back, rfl⟩ := List.append_of_mem hl
    cases back with
    | nil => exact ⟨front, last, [], by simp [hrun]⟩
    | cons next back => exact ⟨front, next, back ++ [last], by simp [hrun]⟩
  · rintro ⟨front, next, back, hline⟩
    have hinit : init = front ++ l :: (next :: back).dropLast := by
      have hdrop := congrArg List.dropLast (hrun.symm.trans hline)
      simpa using hdrop
    rw [hinit]
    simp

/-- **When a run is reported once, on its last line.** All other lines are passed over. -/
theorem report_run_iff (limits : Limits) (text : Text) :
    (∀ stream options, Limits.ofOptions options = limits →
      runRule text stream rule options =
        ((lines text).filterMap (check limits)).map (Problem.ofViolation rule.id options.level)) ∧
      (∀ l ∈ lines text, ¬ l.IsBlank → check limits l = none) ∧
      ∀ above run below, IsRun text above run below →
        (run.filterMap (check limits) = verdict limits above run below ↔
          ∀ front l next back, run = front ++ l :: next :: back →
            Alike l next ∨ (front.length + 1 : Nat) ≤ limits.due above.isEmpty false) := by
  refine ⟨?_, fun l _ hblank => check_of_not_blank limits hblank, ?_⟩
  · rintro stream options rfl
    exact runRule_eq_filterMap text stream options
  intro above run below h
  obtain ⟨init, last, hrun⟩ : ∃ init last, run = init ++ [last] :=
    ⟨_, _, (List.dropLast_concat_getLast h.ne_nil).symm⟩
  -- The last line says what is to be said, so it is for the others to say nothing.
  have hsplit : run.filterMap (check limits) =
      init.filterMap (check limits) ++ verdict limits above run below := by
    rw [← check_last limits h hrun, hrun, List.filterMap_append]
    rfl
  rw [hsplit, List.append_left_eq_self, List.filterMap_eq_nil_iff]
  constructor
  · intro hsilent front l next back hline
    rw [← check_inner_eq_none_iff limits h hline]
    exact hsilent l ((mem_init_iff hrun).mpr ⟨front, next, back, hline⟩)
  · intro hall l hl
    obtain ⟨front, next, back, hline⟩ := (mem_init_iff hrun).mp hl
    rw [check_inner_eq_none_iff limits h hline]
    exact hall front l next back hline

/-- Two blank lines, the first in LF and the second in CR LF. -/
def torn : Text := "a\n\n\r\nb\n".toList

theorem isRun_torn : IsRun torn [⟨1, 0, ['a'], .lf, [], "\n\r\nb\n".toList⟩]
    [⟨2, 2, [], .lf, "\na".toList, "\r\nb\n".toList⟩,
      ⟨3, 3, [], .crlf, "\n\na".toList, "b\n".toList⟩]
    [⟨4, 5, ['b'], .lf, "\n\r\n\na".toList, []⟩] :=
  ⟨by decide +kernel, by simp, by decide, by decide, by decide⟩

/-- Where one blank line is allowed, the first of the two is within the limit. -/
theorem report_run_torn : ∃ above run below, IsRun torn above run below ∧
    run.filterMap (check ⟨1, 0, 0⟩) = [⟨3, 1, "too many blank lines (2 >= 1)"⟩] := by
  refine ⟨_, _, _, isRun_torn, ?_⟩
  rw [((report_run_iff ⟨1, 0, 0⟩ torn).2.2 _ _ _ isRun_torn).mpr]
  · decide
  · intro front l next back hrun
    apply Or.inr
    have hlength := congrArg List.length hrun
    simp only [List.length_cons, List.length_nil, List.length_append] at hlength
    have hfront : front.length = 0 := by omega
    rw [hfront]
    decide

/-- Where none is allowed, **both lines of the run are reported**. -/
theorem report_run_twice : ∃ above run below, IsRun torn above run below ∧
    run.filterMap (check ⟨0, 0, 0⟩) =
      [⟨2, 1, "too many blank lines (1 >= 0)"⟩, ⟨3, 1, "too many blank lines (2 >= 0)"⟩] ∧
    verdict ⟨0, 0, 0⟩ above run below = [⟨3, 1, "too many blank lines (2 >= 0)"⟩] :=
  ⟨_, _, _, isRun_torn, by decide, by decide⟩

end EmptyLines

end YamlStyle
