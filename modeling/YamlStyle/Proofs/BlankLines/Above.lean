import Mathlib.Data.List.Induction
import YamlStyle.Proofs.Line.Stands
import YamlStyle.Rule.EmptyLines

/-!
# Counting blank lines backwards

The rule `empty-lines` has no lines to count. It reads endings off the characters above a line, the
nearest first, and takes an LF together with the CR in front of it. `lines` reads the same characters
from the other side, where it is the CR that looks for an LF. The two agree because a document never
divides at a place between CR and LF: `Unbroken` is that fact, every line keeps it
(`unbroken_lineBelow`), and with it one line more is one ending more (`endingsAbove_line`).

So the count is the number of empty lines above (`endingsAbove_before`), and `check_eq_some_iff` says
what the rule does with a line in terms of `lines` alone. One thing stays odd. Whether the run goes on
below is asked of the *characters*, and only two endings of a kind are taken for a run.
-/

set_option autoImplicit false

namespace YamlStyle

/-! ## Divisions between lines -/

/-- No CR LF is torn apart between two texts, of which the first is written backwards. -/
def Unbroken (before text : Text) : Prop := before.head? = some '\r' → text.head? ≠ some '\n'

theorem unbroken_of_head {c : Char} (hc : c ≠ '\r') (before text : Text) :
    Unbroken (c :: before) text := by
  intro hcr
  exact absurd (Option.some.inj hcr) hc

/-- An ending takes all it can get: behind a CR that is an ending by itself there is no LF. -/
theorem unbroken_lineBelow {text : Text} (h : lineEnding text ≠ .none) (above : Text) :
    Unbroken ((lineEnding text).text.reverse ++ above) (lineBelow text) := by
  rw [lineEnding] at h ⊢
  rw [lineBelow]
  generalize lineRest text = rest at h ⊢
  cases rest with
  | nil => exact absurd rfl h
  | cons c rest =>
    by_cases hc : isBreak c = true
    · simp only [isBreak, Bool.or_eq_true, beq_iff_eq] at hc
      rcases hc with rfl | rfl
      · exact unbroken_of_head (by decide) above rest
      · by_cases hlf : rest.head? = some '\n'
        · obtain ⟨tail, rfl⟩ := List.head?_eq_some_iff.mp hlf
          exact unbroken_of_head (by decide) ('\r' :: above) tail
        · rw [Ending.split_cr hlf]
          intro _
          exact hlf
    · rw [Bool.not_eq_true] at hc
      rw [Ending.split_of_not_isBreak hc] at h
      exact absurd rfl h

namespace EmptyLines

/-! ## From below and from above -/

theorem endingsAbove_other {c : Char} (h : isBreak c = false) (rest : Text) :
    endingsAbove (c :: rest) = (0, false) := by
  simp only [isBreak, Bool.or_eq_false_iff, beq_eq_false_iff_ne] at h
  unfold endingsAbove
  split <;> simp_all

theorem endingsAbove_ending {e : Ending} (he : e ≠ .none) {above : Text}
    (h : Unbroken above e.text) :
    endingsAbove (e.text.reverse ++ above) =
      ((endingsAbove above).1 + 1, (endingsAbove above).2) := by
  cases e with
  | none => exact absurd rfl he
  | crlf =>
    show endingsAbove ('\n' :: '\r' :: above) = _
    rw [endingsAbove]
    rfl
  | cr =>
    show endingsAbove ('\r' :: above) = _
    rw [endingsAbove]
    rfl
  | lf =>
    -- A CR above would be taken for a part of this ending.
    show endingsAbove ('\n' :: above) = _
    rw [endingsAbove.eq_3]
    · rfl
    · rintro rest rfl
      exact h rfl rfl

theorem endingsAbove_eq_bottom {before : Text} (h : endingsAbove before = (0, true)) :
    before = [] := by
  unfold endingsAbove at h
  split at h
  · rfl
  all_goals simp [endingsAbove.another] at h

/-- What is known of the endings above, one line further down. -/
def pass (count : Nat × Bool) (l : Line) : Nat × Bool :=
  if l.isEmpty then (count.1 + 1, count.2) else (1, false)

theorem endingsAbove_line {before text : Text} (hunbroken : Unbroken before text)
    (hending : lineEnding text ≠ .none) :
    endingsAbove ((lineEnding text).text.reverse ++ ((lineContent text).reverse ++ before)) =
      if (lineContent text).isEmpty then ((endingsAbove before).1 + 1, (endingsAbove before).2)
      else (1, false) := by
  have htext := line_append text
  rcases List.eq_nil_or_concat (lineContent text) with hempty | ⟨front, c, hcontent⟩
  · rw [hempty] at htext ⊢
    apply endingsAbove_ending hending
    intro hcr hlf
    apply hunbroken hcr
    rw [← htext, List.nil_append, List.head?_append, hlf]
    rfl
  · -- The last character of the content shields the ending from what is above.
    have hc : isBreak c = false := by
      apply isBreak_of_mem_lineContent
      rw [hcontent]
      simp
    have hne : c ≠ '\r' := by
      rintro rfl
      exact absurd hc (by decide)
    rw [hcontent, List.concat_eq_append, List.reverse_append, List.reverse_singleton,
      List.singleton_append, List.cons_append,
      endingsAbove_ending hending (unbroken_of_head hne _ _), endingsAbove_other hc]
    simp

theorem endingsAbove_of_linesFrom {before text : Text} {number start : Nat}
    {above below : List Line} {l : Line} (hunbroken : Unbroken before text)
    (h : linesFrom number start before text = above ++ l :: below) :
    endingsAbove l.before = above.foldl pass (endingsAbove before) := by
  induction text using line_induction generalizing number start before above with
  | nil =>
    rw [linesFrom] at h
    exact absurd h.symm (by simp)
  | line text hne ih =>
    rw [linesFrom_of_ne_nil _ _ _ hne] at h
    cases above with
    | nil =>
      obtain ⟨rfl, -⟩ := List.cons.inj h
      rfl
    | cons first above =>
      obtain ⟨rfl, hrest⟩ := List.cons.inj h
      have hending : lineEnding text ≠ .none := by
        intro hnone
        rw [lineBelow_of_no_ending hnone, linesFrom] at hrest
        exact absurd hrest.symm (by simp)
      rw [ih (unbroken_lineBelow hending _) hrest, endingsAbove_line hunbroken hending]
      rfl

/-! ## The count -/

/-- The number of empty lines in a row that some lines end with. -/
def emptyTail (ls : List Line) : Nat := (ls.reverse.takeWhile Line.isEmpty).length

theorem emptyTail_concat (ls : List Line) (l : Line) :
    emptyTail (ls ++ [l]) = if l.isEmpty then emptyTail ls + 1 else 0 := by
  rw [emptyTail, List.reverse_append, List.reverse_singleton, List.singleton_append,
    List.takeWhile_cons]
  split <;> rfl

theorem foldl_pass (ls : List Line) :
    ls.foldl pass (0, true) =
      if ls.all Line.isEmpty then (emptyTail ls, true) else (emptyTail ls + 1, false) := by
  induction ls using List.reverseRecOn with
  | nil => rfl
  | append_singleton ls l ih =>
    rw [List.foldl_append, List.foldl_cons, List.foldl_nil, ih, emptyTail_concat, List.all_append]
    cases hl : l.isEmpty with
    | true => cases ls.all Line.isEmpty <;> simp [pass, hl]
    | false => simp [pass, hl]

variable {text : Text} {above below : List Line} {l : Line}

/-- Counted backwards, the endings above a line tell how many empty lines are right above it, and
whether there are no others. -/
theorem endingsAbove_before (h : lines text = above ++ l :: below) :
    endingsAbove l.before =
      if above.all Line.isEmpty then (emptyTail above, true) else (emptyTail above + 1, false) := by
  have hunbroken : Unbroken [] text := by
    intro hcr
    exact absurd hcr (by simp)
  rw [endingsAbove_of_linesFrom hunbroken h, endingsAbove, foldl_pass]

theorem isEmpty_before (h : lines text = above ++ l :: below) :
    l.before.isEmpty = above.isEmpty := by
  have hcount := endingsAbove_before h
  rw [Bool.eq_iff_iff, List.isEmpty_iff, List.isEmpty_iff]
  constructor
  · intro hbefore
    rw [hbefore, endingsAbove] at hcount
    split at hcount
    · -- Nothing is counted, though the last of some empty lines would be.
      rename_i hall
      rcases List.eq_nil_or_concat above with hnil | ⟨front, last, rfl⟩
      · exact hnil
      · rw [List.concat_eq_append] at hall hcount
        have hlast : last.isEmpty = true := by
          rw [List.all_append, Bool.and_eq_true] at hall
          simpa using hall.2
        rw [emptyTail_concat, if_pos hlast] at hcount
        simp at hcount
    · simp at hcount
  · rintro rfl
    exact endingsAbove_eq_bottom hcount

theorem isEmpty_after_iff (h : lines text = above ++ l :: below) :
    l.after.isEmpty = true ↔ l.nextStart = width text := by
  have hmem : l ∈ lines text := by
    rw [h]
    simp
  have hstands := stands_of_mem_lines hmem
  have hwidth := congrArg width hstands.text
  rw [hstands.nextStart_eq, hwidth, List.isEmpty_iff]
  simp only [width_append]
  constructor
  · intro hafter
    rw [hafter, width_nil]
    omega
  · intro hequal
    apply eq_nil_of_width_eq_zero
    omega

/-! ## Whether a run goes on -/

/-- Two lines both end in LF, or both in CR LF. -/
def Alike (l next : Line) : Prop :=
  l.ending = .lf ∧ next.ending = .lf ∨ l.ending = .crlf ∧ next.ending = .crlf

/-- The line below is empty as well, and the two end alike. -/
def GoesOn (l : Line) (below : List Line) : Prop :=
  ∃ next ∈ below.head?, next.isEmpty = true ∧ Alike l next

/-- A text begins with LF or with CR LF exactly if its first line is empty and ends so. -/
theorem ending_begins_iff {e : Ending} (he : e = .lf ∨ e = .crlf) (text : Text) :
    e.text <+: text ↔ lineContent text = [] ∧ lineEnding text = e := by
  constructor
  · rintro ⟨rest, rfl⟩
    rcases he with rfl | rfl
    · exact ⟨rfl, rfl⟩
    · exact ⟨rfl, rfl⟩
  · rintro ⟨hcontent, rfl⟩
    refine ⟨lineBelow text, ?_⟩
    have htext := line_append text
    rwa [hcontent, List.nil_append] at htext

theorem continues_iff_begins (l : Line) :
    continues l = true ↔ (l.ending = .lf ∨ l.ending = .crlf) ∧ l.ending.text <+: l.after := by
  rw [continues]
  cases l.ending with
  | none | cr => simp
  | lf | crlf => simp [Ending.text, List.isPrefixOf_iff_prefix]

theorem continues_iff {number start : Nat} {before : Text} :
    continues l = true ↔ GoesOn l (linesFrom number start before l.after) := by
  rw [continues_iff_begins, GoesOn]
  by_cases hafter : l.after = []
  · rw [hafter, linesFrom]
    constructor
    · rintro ⟨he, hbegins⟩
      rw [List.prefix_nil] at hbegins
      rcases he with he | he <;> rw [he] at hbegins <;> exact absurd hbegins (by simp [Ending.text])
    · rintro ⟨next, hnext, -⟩
      exact absurd hnext (by simp)
  · rw [linesFrom_of_ne_nil _ _ _ hafter]
    constructor
    · rintro ⟨he, hbegins⟩
      obtain ⟨hcontent, hending⟩ := (ending_begins_iff he l.after).mp hbegins
      refine ⟨_, rfl, by simp [Line.isEmpty, hcontent], ?_⟩
      rcases he with he | he
      · exact Or.inl ⟨he, hending.trans he⟩
      · exact Or.inr ⟨he, hending.trans he⟩
    · rintro ⟨next, hnext, hempty, halike⟩
      obtain rfl := Option.some.inj hnext
      have he : l.ending = .lf ∨ l.ending = .crlf := by
        rcases halike with ⟨he, -⟩ | ⟨he, -⟩ <;> simp [he]
      refine ⟨he, (ending_begins_iff he l.after).mpr ⟨by simpa [Line.isEmpty] using hempty, ?_⟩⟩
      rcases halike with ⟨he, hnext⟩ | ⟨he, hnext⟩ <;> exact hnext.trans he.symm

theorem continues_iff_goesOn (h : lines text = above ++ l :: below) :
    continues l = true ↔ GoesOn l below := by
  obtain ⟨-, before', hbelow⟩ := linesFrom_below h
  rw [hbelow]
  exact continues_iff

/-! ## What is reported -/

/-- The limit that counts. The end of a document goes before its start. -/
def Limits.due (limits : Limits) (atStart atEnd : Bool) : Int :=
  if atEnd then limits.atEnd else if atStart then limits.atStart else limits.inside

/-- What is said of the last of `count` blank lines where `limit` are allowed. -/
def tooMany (l : Line) (count : Nat) (limit : Int) : Violation :=
  ⟨l.number, 1, s!"too many blank lines ({count} >= {limit})"⟩

theorem check_of_blank (limits : Limits) (h : lines text = above ++ l :: below)
    (hempty : l.isEmpty = true) (hterminated : l.isTerminated = true) :
    check limits l =
      if continues l = false ∧ (above.isEmpty && l.after.isEmpty) = false ∧
          limits.due (above.all Line.isEmpty) l.after.isEmpty < (emptyTail (above ++ [l]) : Nat) then
        some (tooMany l (emptyTail (above ++ [l]))
          (limits.due (above.all Line.isEmpty) l.after.isEmpty))
      else none := by
  rw [emptyTail_concat, if_pos hempty, ← isEmpty_before h, check, endingsAbove_before h, hempty,
    hterminated]
  cases continues l with
  | true => simp
  | false =>
    cases above.all Line.isEmpty <;> cases l.before.isEmpty <;> cases l.after.isEmpty <;>
      simp [Limits.due, tooMany]

theorem check_of_not_blank (limits : Limits) (h : ¬ (l.isEmpty = true ∧ l.isTerminated = true)) :
    check limits l = none := by
  rw [check, if_neg]
  intro hblank
  simp only [Bool.and_eq_true] at hblank
  exact h hblank.1

/-- **When a line is reported**, in terms of the lines around it. -/
theorem check_eq_some_iff (limits : Limits) (h : lines text = above ++ l :: below) (v : Violation) :
    check limits l = some v ↔
      l.isEmpty = true ∧ l.isTerminated = true ∧ ¬ (l.number = 1 ∧ l.nextStart = width text) ∧
        ¬ GoesOn l below ∧ ∃ (k : Nat) (m : Int), k = emptyTail (above ++ [l]) ∧
          m = limits.due ((above ++ [l]).all Line.isEmpty) (l.nextStart == width text) ∧ m < k ∧
          v = ⟨l.number, 1, s!"too many blank lines ({k} >= {m})"⟩ := by
  have hend : (l.nextStart == width text) = l.after.isEmpty := by
    rw [Bool.eq_iff_iff, beq_iff_eq]
    exact (isEmpty_after_iff h).symm
  have hfirst : l.number = 1 ↔ above.isEmpty = true := by
    rw [(linesFrom_below h).1, List.isEmpty_iff, ← List.length_eq_zero_iff]
    omega
  by_cases hblank : l.isEmpty = true ∧ l.isTerminated = true
  · obtain ⟨hempty, hterminated⟩ := hblank
    have hall : (above ++ [l]).all Line.isEmpty = above.all Line.isEmpty := by
      simp [hempty]
    rw [check_of_blank limits h hempty hterminated, Option.ite_none_right_eq_some, hend, hall, hfirst,
      ← isEmpty_after_iff h, ← continues_iff_goesOn h, Bool.not_eq_true, Bool.and_eq_false_iff]
    constructor
    · rintro ⟨⟨hstops, hnotAlone, hmore⟩, hv⟩
      refine ⟨hempty, hterminated, ?_, hstops, _, _, rfl, rfl, hmore, (Option.some.inj hv).symm⟩
      rintro ⟨habove, hafter⟩
      simp [habove, hafter] at hnotAlone
    · rintro ⟨-, -, hnotAlone, hstops, k, m, rfl, rfl, hmore, rfl⟩
      refine ⟨⟨hstops, ?_, hmore⟩, rfl⟩
      rw [not_and_or, Bool.not_eq_true, Bool.not_eq_true] at hnotAlone
      exact hnotAlone
  · rw [check_of_not_blank limits hblank]
    constructor
    · intro hnone
      exact absurd hnone (by simp)
    · rintro ⟨hempty, hterminated, -⟩
      exact absurd ⟨hempty, hterminated⟩ hblank

/-- Three blank lines, of which no two end alike. -/
def motley : Text := "a\n\r\n\n\rb".toList

theorem check_motley : ∃ above l below, lines motley = above ++ l :: below ∧
    check ⟨2, 0, 0⟩ l = some ⟨4, 1, "too many blank lines (3 >= 2)"⟩ := by
  have hlines : lines motley =
      [⟨1, 0, ['a'], .lf, [], "\r\n\n\rb".toList⟩,
        ⟨2, 2, [], .crlf, "\na".toList, "\n\rb".toList⟩,
        ⟨3, 4, [], .lf, "\n\r\na".toList, "\rb".toList⟩] ++
      ⟨4, 5, [], .cr, "\n\n\r\na".toList, ['b']⟩ ::
        [⟨5, 6, ['b'], .none, "\r\n\n\r\na".toList, []⟩] := by
    decide +kernel
  refine ⟨_, _, _, hlines, ?_⟩
  rw [check_eq_some_iff ⟨2, 0, 0⟩ hlines]
  refine ⟨rfl, rfl, by decide, ?_, 3, 2, by decide, by decide, by decide, by decide⟩
  rintro ⟨next, hnext, hempty, -⟩
  obtain rfl := Option.some.inj hnext
  exact absurd hempty (by decide)

end EmptyLines

end YamlStyle
