import YamlStyle.Proofs.Line.Below
import YamlStyle.Proofs.Text.Boundary

/-!
# CR LF for LF

`crlf` writes a text with CR LF where it has LF. What it does to a text without CR is the subject of
the modules in this directory: the text has the same lines, and everything that reads it finds the
same in it, at other offsets.

Such a text is made of LFs and of characters that are no breaks, and `Unix` says so one character at
a time: its three cases are the cases in which `crlf` differs. This module goes through the tests
and stretches that stop at breaks, and through offsets. A boundary of a text has its counterpart in
the rewritten text (`crlfOffset`), and the order of boundaries is that of their counterparts.
-/

set_option autoImplicit false

namespace YamlStyle

/-- A text with every LF replaced by CR LF. -/
def crlf : Text → Text
  | [] => []
  | c :: rest => if c = '\n' then '\r' :: '\n' :: crlf rest else c :: crlf rest

@[simp] theorem crlf_nil : crlf [] = [] := rfl

@[simp] theorem crlf_lf (rest : Text) : crlf ('\n' :: rest) = '\r' :: '\n' :: crlf rest := rfl

theorem crlf_other {c : Char} (h : isBreak c = false) (rest : Text) :
    crlf (c :: rest) = c :: crlf rest := by
  have hc : c ≠ '\n' := by
    rintro rfl
    exact absurd h (by decide)
  rw [crlf, if_neg hc]

@[simp] theorem crlf_append (s t : Text) : crlf (s ++ t) = crlf s ++ crlf t := by
  induction s with
  | nil => rfl
  | cons c s ih =>
    rw [List.cons_append, crlf, crlf, ih]
    split <;> rfl

theorem crlf_ne_nil {text : Text} (h : text ≠ []) : crlf text ≠ [] := by
  cases text with
  | nil => exact absurd rfl h
  | cons c rest =>
    rw [crlf]
    split <;> simp

@[simp] theorem crlf_eq_nil_iff {text : Text} : crlf text = [] ↔ text = [] := by
  refine ⟨fun h => Classical.byContradiction fun hne => crlf_ne_nil hne h, ?_⟩
  rintro rfl
  rfl

@[simp] theorem isEmpty_crlf (text : Text) : (crlf text).isEmpty = text.isEmpty := by
  rw [Bool.eq_iff_iff, List.isEmpty_iff, List.isEmpty_iff, crlf_eq_nil_iff]

/-- A text on one line stays as it is. -/
theorem crlf_of_no_break {text : Text} (h : ∀ c ∈ text, isBreak c = false) : crlf text = text := by
  induction text with
  | nil => rfl
  | cons c rest ih =>
    rw [crlf_other (h c List.mem_cons_self), ih fun d hd => h d (List.mem_cons_of_mem _ hd)]

/-! ## Texts without CR -/

/-- A text whose only breaks are LFs. -/
inductive Unix : Text → Prop
  | nil : Unix []
  | lf {rest : Text} : Unix rest → Unix ('\n' :: rest)
  | other {c : Char} {rest : Text} : isBreak c = false → Unix rest → Unix (c :: rest)

theorem unix_iff {text : Text} : Unix text ↔ '\r' ∉ text := by
  refine ⟨fun h => ?_, fun h => ?_⟩
  · induction h with
    | nil => exact List.not_mem_nil
    | lf _ ih => simpa using ih
    | @other c rest hc _ ih =>
      have hcr : '\r' ≠ c := by
        rintro rfl
        exact absurd hc (by decide)
      simpa [hcr] using ih
  · induction text with
    | nil => exact .nil
    | cons c rest ih =>
      rw [List.mem_cons, not_or] at h
      obtain ⟨hc, hrest⟩ := h
      by_cases hlf : c = '\n'
      · rw [hlf]
        exact .lf (ih hrest)
      · exact .other (by simp [isBreak, hlf, Ne.symm hc]) (ih hrest)

namespace Unix

variable {text : Text}

theorem of_append {front back : Text} (h : Unix (front ++ back)) : Unix front ∧ Unix back := by
  simp only [unix_iff, List.mem_append, not_or] at h ⊢
  exact h

theorem of_cons {c : Char} (h : Unix (c :: text)) : Unix text := by
  cases h with
  | lf hrest => exact hrest
  | other _ hrest => exact hrest

/-- A stretch that stops at breaks is the same. -/
theorem takeWhile_crlf (h : Unix text) {p : Char → Bool} (hp : ∀ c, isBreak c = true → p c = false) :
    (crlf text).takeWhile p = text.takeWhile p := by
  induction h with
  | nil => rfl
  | lf _ _ => simp [hp '\n' (by decide), hp '\r' (by decide)]
  | other hc _ ih => rw [crlf_other hc, List.takeWhile_cons, List.takeWhile_cons, ih]

theorem dropWhile_crlf (h : Unix text) {p : Char → Bool} (hp : ∀ c, isBreak c = true → p c = false) :
    (crlf text).dropWhile p = crlf (text.dropWhile p) := by
  induction h with
  | nil => rfl
  | lf _ _ => simp [hp '\n' (by decide), hp '\r' (by decide)]
  | @other c rest hc _ ih =>
    rw [crlf_other hc, List.dropWhile_cons, List.dropWhile_cons, ih]
    split
    · rfl
    · exact (crlf_other hc rest).symm

theorem lineContent_crlf (h : Unix text) : lineContent (crlf text) = lineContent text :=
  h.takeWhile_crlf fun c hc => by simp [hc]

theorem lineRest_crlf (h : Unix text) : lineRest (crlf text) = crlf (lineRest text) :=
  h.dropWhile_crlf fun c hc => by simp [hc]

theorem leadingSpaces_crlf (h : Unix text) : leadingSpaces (crlf text) = leadingSpaces text := by
  rw [leadingSpaces, h.takeWhile_crlf fun c hc => not_space_of_isBreak hc, leadingSpaces]

end Unix

/-! ## Lines -/

theorem crlf_lineContent (text : Text) : crlf (lineContent text) = lineContent text :=
  crlf_of_no_break fun _ hc => isBreak_of_mem_lineContent hc

/-- The ending that stands in place of another: CR LF for LF. -/
def Ending.toCrlf : Ending → Ending
  | .lf => .crlf
  | e => e

namespace Unix

variable {text : Text}

theorem split_crlf (h : Unix text) :
    Ending.split (crlf text) = ((Ending.split text).1.toCrlf, crlf (Ending.split text).2) := by
  cases h with
  | nil => rfl
  | lf _ => rfl
  | @other c rest hc _ =>
    rw [crlf_other hc, Ending.split_of_not_isBreak hc, Ending.split_of_not_isBreak hc,
      ← crlf_other hc]
    rfl

theorem lineEnding_crlf (h : Unix text) : lineEnding (crlf text) = (lineEnding text).toCrlf := by
  obtain ⟨-, hrest⟩ := (lineContent_append_lineRest text ▸ h).of_append
  rw [lineEnding, h.lineRest_crlf, hrest.split_crlf, lineEnding]

theorem lineBelow_crlf (h : Unix text) : lineBelow (crlf text) = crlf (lineBelow text) := by
  obtain ⟨-, hrest⟩ := (lineContent_append_lineRest text ▸ h).of_append
  rw [lineBelow, h.lineRest_crlf, hrest.split_crlf, lineBelow]

theorem nextLines (h : Unix text) : Unix (lineBelow text) := by
  rw [← line_append text] at h
  exact h.of_append.2.of_append.2

/-- The first line of such a text ends in LF, or is the last one. -/
theorem lineEnding_cases (h : Unix text) :
    lineEnding text = .none ∧ lineBelow text = [] ∨ lineEnding text = .lf := by
  obtain ⟨-, hrest⟩ := (lineContent_append_lineRest text ▸ h).of_append
  have hhead := List.head?_dropWhile_not (fun c => !isBreak c) text
  rw [← lineRest] at hhead
  rw [lineEnding, lineBelow]
  generalize lineRest text = rest at hrest hhead
  cases hrest with
  | nil => exact Or.inl ⟨rfl, rfl⟩
  | lf _ => exact Or.inr rfl
  | other hc _ => exact absurd hhead (by simp [hc])

theorem text_toCrlf (h : Unix text) :
    (lineEnding text).toCrlf.text = crlf (lineEnding text).text := by
  rcases h.lineEnding_cases with ⟨hnone, -⟩ | hlf
  · rw [hnone]
    rfl
  · rw [hlf]
    rfl

end Unix

/-! ## Offsets -/

/-- The counterpart of a boundary of a text. -/
def crlfOffset (text : Text) (offset : Nat) : Nat :=
  match splitAt? text offset with
  | some (front, _) => width (crlf front)
  | none => offset

theorem crlfOffset_width (front back : Text) :
    crlfOffset (front ++ back) (width front) = width (crlf front) := by
  rw [crlfOffset, splitAt?_width]

theorem width_crlf_eq_zero_iff (text : Text) : width (crlf text) = 0 ↔ width text = 0 := by
  refine ⟨fun h => ?_, fun h => ?_⟩
  · rw [crlf_eq_nil_iff.mp (eq_nil_of_width_eq_zero h), width_nil]
  · rw [eq_nil_of_width_eq_zero h, crlf_nil, width_nil]

/-- Boundaries and their counterparts come in the same order. -/
theorem width_crlf_lt_iff {front front' back back' : Text} (h : front ++ back = front' ++ back') :
    width (crlf front) < width (crlf front') ↔ width front < width front' := by
  -- One of the two fronts is the other and a stretch `m` more.
  rcases List.append_eq_append_iff.mp h with ⟨m, rfl, -⟩ | ⟨m, rfl, -⟩
  all_goals
    have hzero := width_crlf_eq_zero_iff m
    rw [crlf_append, width_append, width_append]
    omega

/-- The same of offsets. -/
theorem crlfOffset_lt_iff {text : Text} {a b : Nat} (ha : isBoundary text a = true)
    (hb : isBoundary text b = true) : crlfOffset text a < crlfOffset text b ↔ a < b := by
  obtain ⟨front, back, htext, rfl⟩ := isBoundary_iff.mp ha
  obtain ⟨front', back', htext', rfl⟩ := isBoundary_iff.mp hb
  have hfront : crlfOffset text (width front) = width (crlf front) := by
    rw [htext, crlfOffset_width]
  have hfront' : crlfOffset text (width front') = width (crlf front') := by
    rw [htext', crlfOffset_width]
  rw [hfront, hfront', width_crlf_lt_iff (htext.symm.trans htext')]

end YamlStyle
