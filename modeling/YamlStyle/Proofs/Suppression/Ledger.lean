import YamlStyle.Proofs.Table.Lookup
import YamlStyle.Suppression

/-!
# What a ledger says about one rule

A ledger keeps four things apart: the intervals of line directives, the intervals of disables that
were closed, the blanket disable and the disables by name. Seen from **one** rule all of it comes
down to three readings:

- `marks`: the intervals of single lines, which no later directive touches;
- `Closed rule line`: some stretch of lines that was closed covers the rule on the line;
- `Open rule line`: a disable that is still open, blanket or by name, reaches the line.

This file says what every operation of a ledger does to the three. The two enabling operations are
where the work is: enabling a rule turns exactly what was open above the directive into something
closed, and enabling *other* rules under a blanket disable moves the rule from the blanket to its own
name without a gap.
-/

set_option autoImplicit false

namespace YamlStyle

/-- Whether a span is a single line, as line directives leave it behind. -/
def Span.isLine : Span → Bool
  | .line _ => true
  | .range _ _ | .onward _ => false

namespace Suppressions

/-- Whether an interval silences a rule on a line. -/
def Covers (rule : String) (line : Nat) (i : Interval) : Prop :=
  i.span.contains line = true ∧ i.scope.covers rule = true

namespace Ledger

/-- The intervals that line directives left behind. -/
def marks (ledger : Ledger) : List Interval := ledger.found.intervals.filter (·.span.isLine)

/-- Whether a stretch of lines that was closed silences a rule on a line. -/
def Closed (ledger : Ledger) (rule : String) (line : Nat) : Prop :=
  ∃ i ∈ ledger.found.intervals, i.span.isLine = false ∧ Covers rule line i

/-- Whether a blanket disable is open and reaches a line. -/
def BlanketOpen (ledger : Ledger) (line : Nat) : Prop :=
  ∃ first, ledger.blanket = some first ∧ first ≤ line

/-- Whether a disable of this very rule is open and reaches a line. -/
def SingleOpen (ledger : Ledger) (rule : String) (line : Nat) : Prop :=
  ∃ first, ledger.single.get? rule = some first ∧ first ≤ line

/-- Whether a disable that is still open silences a rule on a line. -/
def Open (ledger : Ledger) (rule : String) (line : Nat) : Prop :=
  ledger.BlanketOpen line ∨ ledger.SingleOpen rule line

/-! ## Recording -/

theorem record_marks (ledger : Ledger) (is : List Interval) :
    (ledger.record is).marks = ledger.marks ++ is.filter (·.span.isLine) :=
  List.filter_append ..

theorem record_closed {ledger : Ledger} {is : List Interval} {rule : String} {line : Nat} :
    (ledger.record is).Closed rule line ↔
      ledger.Closed rule line ∨ ∃ i ∈ is, i.span.isLine = false ∧ Covers rule line i := by
  simp only [Closed, record, List.mem_append]
  constructor
  · rintro ⟨i, hi | hi, h⟩
    · exact Or.inl ⟨i, hi, h⟩
    · exact Or.inr ⟨i, hi, h⟩
  · rintro (⟨i, hi, h⟩ | ⟨i, hi, h⟩)
    · exact ⟨i, Or.inl hi, h⟩
    · exact ⟨i, Or.inr hi, h⟩

/-- What a closed disable leaves behind is no single line. -/
theorem filter_isLine_closed (scope : Scope) (first line : Nat) :
    (closed scope first line).filter (·.span.isLine) = [] := by
  unfold closed
  split <;> rfl

/-- What a closed disable leaves behind reaches from its line to the line above the enabling one.
On one and the same line that is nothing, and the interval is not recorded. -/
theorem exists_mem_closed {scope : Scope} {first stop line : Nat} {rule : String} :
    (∃ i ∈ closed scope first stop, i.span.isLine = false ∧ Covers rule line i) ↔
      scope.covers rule = true ∧ first ≤ line ∧ line < stop := by
  unfold closed
  split
  · simp only [List.mem_singleton, exists_eq_left, Span.isLine, Covers, Span.contains,
      Bool.and_eq_true, decide_eq_true_eq, true_and]
    constructor
    · rintro ⟨⟨h₁, h₂⟩, hcov⟩
      exact ⟨hcov, h₁, by omega⟩
    · rintro ⟨hcov, h₁, h₂⟩
      exact ⟨⟨h₁, by omega⟩, hcov⟩
  · simp only [List.not_mem_nil, false_and, exists_false, false_iff]
    rintro ⟨-, h₁, h₂⟩
    omega

/-! ## Disabling -/

/-- A rule that is named is disabled by name afterwards, since an earlier line if it was so before. -/
theorem get?_disableEach (ledger : Ledger) (line : Nat) (names : List String) (rule : String) :
    (ledger.disableEach line names).single.get? rule =
      if rule ∈ names then some ((ledger.single.get? rule).getD line)
      else ledger.single.get? rule := by
  show (names.foldl (fun t name => t.insertIfNew name line) ledger.single).get? rule = _
  generalize ledger.single = table
  induction names generalizing table with
  | nil => simp
  | cons name names ih =>
    rw [List.foldl_cons, ih, Table.get?_insertIfNew]
    by_cases hname : rule = name
    · subst hname
      simp
    · simp [hname]

theorem nodup_disableEach {ledger : Ledger} (hnd : ledger.single.keys.Nodup) (line : Nat)
    (names : List String) : (ledger.disableEach line names).single.keys.Nodup := by
  show (names.foldl (fun t name => t.insertIfNew name line) ledger.single).keys.Nodup
  generalize ledger.single = table at hnd
  induction names generalizing table with
  | nil => exact hnd
  | cons name names ih => exact ih _ (Table.nodup_keys_insertIfNew hnd name line)

/-- A disable that starts on a line, or had started before, reaches what it reached and everything
from that line on. -/
theorem exists_getD_le {since : Option Nat} {start line : Nat}
    (h : ∀ first, since = some first → first ≤ start) :
    (∃ first, some (since.getD start) = some first ∧ first ≤ line) ↔
      (∃ first, since = some first ∧ first ≤ line) ∨ start ≤ line := by
  cases since with
  | none => simp
  | some first =>
    have hle := h first rfl
    simp only [Option.getD_some, Option.some.injEq, exists_eq_left']
    omega

theorem getD_le {since : Option Nat} {start : Nat} (h : ∀ first, since = some first → first ≤ start) :
    since.getD start ≤ start := by
  cases since with
  | none => exact Nat.le_refl _
  | some first => exact h first rfl

theorem disable_cons (ledger : Ledger) (line : Nat) (name : String) (names : List String) :
    ledger.disable line (name :: names) = ledger.disableEach line (name :: names) := rfl

theorem disable_found (ledger : Ledger) (line : Nat) (names : List String) :
    (ledger.disable line names).found = ledger.found := by
  cases names <;> rfl

theorem nodup_disable {ledger : Ledger} (hnd : ledger.single.keys.Nodup) (line : Nat)
    (names : List String) : (ledger.disable line names).single.keys.Nodup := by
  cases names with
  | nil => exact hnd
  | cons name names => exact nodup_disableEach hnd line _

/-- A rule the directive is about is disabled from the line on, and on the lines before as it was. -/
theorem disable_open {ledger : Ledger} {start line : Nat} {names : List String} {rule : String}
    (hstarted : ∀ first, ledger.blanket = some first ∨ ledger.single.get? rule = some first →
      first ≤ start)
    (hmem : names = [] ∨ rule ∈ names) :
    (ledger.disable start names).Open rule line ↔ ledger.Open rule line ∨ start ≤ line := by
  have hblanket : ∀ first, ledger.blanket = some first → first ≤ start :=
    fun first h => hstarted first (Or.inl h)
  have hsingle : ∀ first, ledger.single.get? rule = some first → first ≤ start :=
    fun first h => hstarted first (Or.inr h)
  cases names with
  | nil =>
    show (∃ first, some (ledger.blanket.getD start) = some first ∧ first ≤ line) ∨
      ledger.SingleOpen rule line ↔ _
    rw [exists_getD_le hblanket]
    exact or_right_comm
  | cons name names =>
    have hrule : rule ∈ name :: names := hmem.resolve_left (by simp)
    show ledger.BlanketOpen line ∨ (disableEach ledger start _).SingleOpen rule line ↔ _
    unfold SingleOpen
    rw [get?_disableEach, if_pos hrule, exists_getD_le hsingle]
    exact or_assoc.symm

/-- A rule the directive is not about is as it was. -/
theorem disable_open_of_not_mem {ledger : Ledger} {start line : Nat} {names : List String}
    {rule : String} (hne : names ≠ []) (hmem : rule ∉ names) :
    (ledger.disable start names).Open rule line ↔ ledger.Open rule line := by
  cases names with
  | nil => exact absurd rfl hne
  | cons name names =>
    show ledger.BlanketOpen line ∨ (disableEach ledger start _).SingleOpen rule line ↔ _
    unfold SingleOpen
    rw [get?_disableEach, if_neg hmem]
    exact Iff.rfl

/-- What is open after a disable started no later than the disable. -/
theorem disable_started {ledger : Ledger} {start : Nat} {rule : String}
    (hstarted : ∀ first, ledger.blanket = some first ∨ ledger.single.get? rule = some first →
      first ≤ start) (names : List String) :
    ∀ first, (ledger.disable start names).blanket = some first ∨
      (ledger.disable start names).single.get? rule = some first → first ≤ start := by
  intro first hfirst
  cases names with
  | nil =>
    rcases hfirst with hb | hs
    · obtain rfl := Option.some.inj hb
      exact getD_le fun first h => hstarted first (Or.inl h)
    · exact hstarted first (Or.inr hs)
  | cons name names =>
    rcases hfirst with hb | hs
    · exact hstarted first (Or.inl hb)
    · rw [disable_cons, get?_disableEach] at hs
      split at hs
      · obtain rfl := Option.some.inj hs
        exact getD_le fun first h => hstarted first (Or.inr h)
      · exact hstarted first (Or.inr hs)

/-! ## Closing -/

theorem closeBlanket_blanket (ledger : Ledger) (line : Nat) :
    (ledger.closeBlanket line).blanket = none := by
  unfold closeBlanket
  cases h : ledger.blanket with
  | none => exact h
  | some first => rfl

theorem closeBlanket_single (ledger : Ledger) (line : Nat) :
    (ledger.closeBlanket line).single = ledger.single := by
  unfold closeBlanket
  cases ledger.blanket <;> rfl

theorem closeBlanket_fileDisabled (ledger : Ledger) (line : Nat) :
    (ledger.closeBlanket line).found.fileDisabled = ledger.found.fileDisabled := by
  unfold closeBlanket
  cases ledger.blanket <;> rfl

theorem closeBlanket_marks (ledger : Ledger) (line : Nat) :
    (ledger.closeBlanket line).marks = ledger.marks := by
  unfold closeBlanket
  cases ledger.blanket with
  | none => rfl
  | some first =>
    show (ledger.record (closed .all first line)).marks = ledger.marks
    rw [record_marks, filter_isLine_closed, List.append_nil]

theorem closeBlanket_closed {ledger : Ledger} {stop : Nat} {rule : String} {line : Nat} :
    (ledger.closeBlanket stop).Closed rule line ↔
      ledger.Closed rule line ∨ (ledger.BlanketOpen line ∧ line < stop) := by
  unfold closeBlanket BlanketOpen
  cases hb : ledger.blanket with
  | none => simp
  | some first =>
    show (ledger.record (closed .all first stop)).Closed rule line ↔ _
    rw [record_closed, exists_mem_closed]
    simp [Scope.covers]

theorem closeSingle_blanket (ledger : Ledger) (line : Nat) (name : String) :
    (ledger.closeSingle line name).blanket = ledger.blanket := by
  unfold closeSingle
  cases ledger.single.get? name <;> rfl

theorem closeSingle_fileDisabled (ledger : Ledger) (line : Nat) (name : String) :
    (ledger.closeSingle line name).found.fileDisabled = ledger.found.fileDisabled := by
  unfold closeSingle
  cases ledger.single.get? name <;> rfl

theorem closeSingle_marks (ledger : Ledger) (line : Nat) (name : String) :
    (ledger.closeSingle line name).marks = ledger.marks := by
  unfold closeSingle
  cases ledger.single.get? name with
  | none => rfl
  | some first =>
    show (ledger.record (closed (.rules [name]) first line)).marks = ledger.marks
    rw [record_marks, filter_isLine_closed, List.append_nil]

theorem nodup_closeSingle {ledger : Ledger} (hnd : ledger.single.keys.Nodup) (line : Nat)
    (name : String) : (ledger.closeSingle line name).single.keys.Nodup := by
  unfold closeSingle
  cases ledger.single.get? name with
  | none => exact hnd
  | some first => exact Table.nodup_keys_erase hnd name

theorem get?_closeSingle {ledger : Ledger} (hnd : ledger.single.keys.Nodup) (line : Nat)
    (name rule : String) :
    (ledger.closeSingle line name).single.get? rule =
      if rule = name then none else ledger.single.get? rule := by
  unfold closeSingle
  cases hget : ledger.single.get? name with
  | none =>
    by_cases h : rule = name
    · simp [h, hget]
    · simp [h]
  | some first =>
    by_cases h : rule = name
    · subst h
      simpa using Table.get?_erase_self hnd rule
    · simpa [h] using Table.get?_erase_of_ne h ledger.single

theorem closeSingle_closed {ledger : Ledger} {stop : Nat} {name rule : String} {line : Nat} :
    (ledger.closeSingle stop name).Closed rule line ↔
      ledger.Closed rule line ∨ (rule = name ∧ ledger.SingleOpen rule line ∧ line < stop) := by
  unfold closeSingle SingleOpen
  cases hget : ledger.single.get? name with
  | none =>
    refine ⟨Or.inl, ?_⟩
    rintro (h | ⟨rfl, ⟨first, hfirst, -⟩, -⟩)
    · exact h
    · rw [hget] at hfirst
      simp at hfirst
  | some first =>
    show (ledger.record (closed (.rules [name]) first stop)).Closed rule line ↔ _
    rw [record_closed, exists_mem_closed]
    refine or_congr Iff.rfl ?_
    simp only [Scope.covers, List.contains_iff_mem, List.mem_singleton]
    constructor
    · rintro ⟨rfl, h₁, h₂⟩
      exact ⟨rfl, ⟨first, hget, h₁⟩, h₂⟩
    · rintro ⟨rfl, ⟨n, hn, h₁⟩, h₂⟩
      rw [hget] at hn
      obtain rfl := Option.some.inj hn
      exact ⟨rfl, h₁, h₂⟩

/-! ## Closing one name after the other -/

/-- Close the disables of some rules. Both enabling operations do this first or last. -/
def closeEach (ledger : Ledger) (line : Nat) (names : List String) : Ledger :=
  names.foldl (fun l name => l.closeSingle line name) ledger

theorem closeEach_cons (ledger : Ledger) (line : Nat) (name : String) (names : List String) :
    ledger.closeEach line (name :: names) = (ledger.closeSingle line name).closeEach line names := rfl

/-- Closing by name leaves alone the blanket, the marks and the file, and no name gets a second
entry. -/
theorem closeEach_frame {ledger : Ledger} (hnd : ledger.single.keys.Nodup) (line : Nat)
    (names : List String) :
    (ledger.closeEach line names).blanket = ledger.blanket ∧
      (ledger.closeEach line names).marks = ledger.marks ∧
      (ledger.closeEach line names).found.fileDisabled = ledger.found.fileDisabled ∧
      (ledger.closeEach line names).single.keys.Nodup := by
  induction names generalizing ledger with
  | nil => exact ⟨rfl, rfl, rfl, hnd⟩
  | cons name names ih =>
    obtain ⟨hblanket, hmarks, hfile, hkeys⟩ := ih (nodup_closeSingle hnd line name)
    rw [closeEach_cons]
    exact ⟨hblanket.trans (closeSingle_blanket ledger line name),
      hmarks.trans (closeSingle_marks ledger line name),
      hfile.trans (closeSingle_fileDisabled ledger line name), hkeys⟩

theorem get?_closeEach {ledger : Ledger} (hnd : ledger.single.keys.Nodup) (line : Nat)
    (names : List String) (rule : String) :
    (ledger.closeEach line names).single.get? rule =
      if rule ∈ names then none else ledger.single.get? rule := by
  induction names generalizing ledger with
  | nil => simp [closeEach]
  | cons name names ih =>
    rw [closeEach_cons, ih (nodup_closeSingle hnd line name), get?_closeSingle hnd]
    by_cases hname : rule = name
    · simp [hname]
    · simp [hname]

theorem closeEach_closed {ledger : Ledger} (hnd : ledger.single.keys.Nodup) {stop : Nat}
    {names : List String} {rule : String} {line : Nat} :
    (ledger.closeEach stop names).Closed rule line ↔
      ledger.Closed rule line ∨ (rule ∈ names ∧ ledger.SingleOpen rule line ∧ line < stop) := by
  induction names generalizing ledger with
  | nil => simp [closeEach]
  | cons name names ih =>
    rw [closeEach_cons, ih (nodup_closeSingle hnd stop name), closeSingle_closed]
    unfold SingleOpen
    rw [get?_closeSingle hnd]
    -- A name that was just closed is not open any more, so a repetition adds nothing.
    by_cases hname : rule = name
    · simp [hname]
    · simp [hname]

/-! ## The two enabling operations, seen from one rule -/

/-- What enabling does for a rule it is about: everything that was open is closed above the line. -/
structure Shut (before after : Ledger) (rule : String) (stop : Nat) : Prop where
  closed : ∀ line, after.Closed rule line ↔
    before.Closed rule line ∨ (before.Open rule line ∧ line < stop)
  blanket : after.blanket = none
  single : after.single.get? rule = none

/-- What enabling does for a rule it is *not* about: a blanket that was open goes over to the name of
the rule, which from now on is disabled since this line or since whenever it was. -/
structure Moved (before after : Ledger) (rule : String) (stop : Nat) : Prop where
  closed : ∀ line, after.Closed rule line ↔
    before.Closed rule line ∨ (before.BlanketOpen line ∧ line < stop)
  blanket : after.blanket = none
  single : after.single.get? rule =
    if before.blanket.isSome then some ((before.single.get? rule).getD stop)
    else before.single.get? rule

theorem Shut.not_open {before after : Ledger} {rule : String} {stop : Nat}
    (h : Shut before after rule stop) {line : Nat} : ¬ after.Open rule line := by
  rintro (⟨first, hfirst, -⟩ | ⟨first, hfirst, -⟩)
  · exact absurd (h.blanket.symm.trans hfirst) (by simp)
  · exact absurd (h.single.symm.trans hfirst) (by simp)

section

variable {before after : Ledger} {rule : String} {stop : Nat} (h : Moved before after rule stop)
  (hstarted : ∀ first, before.blanket = some first ∨ before.single.get? rule = some first →
    first ≤ stop)

include h hstarted

theorem Moved.started :
    ∀ first, after.blanket = some first ∨ after.single.get? rule = some first → first ≤ stop := by
  rintro first (hb | hs)
  · exact absurd (h.blanket.symm.trans hb) (by simp)
  · rw [h.single] at hs
    split at hs
    · obtain rfl := Option.some.inj hs
      exact getD_le fun first hfirst => hstarted first (Or.inr hfirst)
    · exact hstarted first (Or.inr hs)

/-- Moving from the blanket to the name leaves no gap: above the line the blanket was closed, and
from the line on the name takes over. -/
theorem Moved.closed_or_open (line : Nat) :
    after.Closed rule line ∨ after.Open rule line ↔ before.Closed rule line ∨ before.Open rule line := by
  have hnone : ¬ after.BlanketOpen line := by
    rintro ⟨first, hfirst, -⟩
    exact absurd (h.blanket.symm.trans hfirst) (by simp)
  rw [h.closed, Open, or_iff_right hnone, Open, SingleOpen, h.single]
  cases hb : before.blanket with
  | none =>
    have hnot : ¬ before.BlanketOpen line := by
      rintro ⟨first, hfirst, -⟩
      exact absurd (hb.symm.trans hfirst) (by simp)
    simp [hnot, SingleOpen]
  | some first =>
    have hle : first ≤ stop := hstarted first (Or.inl hb)
    have hopen : before.BlanketOpen line ↔ first ≤ line := by
      simp [BlanketOpen, hb]
    simp only [Option.isSome_some, if_true]
    rw [exists_getD_le fun first hfirst => hstarted first (Or.inr hfirst), hopen, SingleOpen]
    by_cases hline : stop ≤ line
    · simp [hline, Nat.le_trans hle hline]
    · simp [hline, Nat.lt_of_not_le hline, or_assoc]

end

/-- What enabling never touches. -/
structure Kept (before after : Ledger) : Prop where
  marks : after.marks = before.marks
  file : after.found.fileDisabled = before.found.fileDisabled
  nodup : after.single.keys.Nodup

theorem enableAll_eq (ledger : Ledger) (line : Nat) :
    ledger.enableAll line = (ledger.closeBlanket line).closeEach line ledger.single.keys := by
  show (ledger.closeBlanket line).closeEach line (ledger.closeBlanket line).single.keys = _
  rw [closeBlanket_single]

theorem enableSome_eq (known : List String) (ledger : Ledger) (line : Nat) (names : List String) :
    enableSome known ledger line names =
      match (ledger.closeEach line names).blanket with
      | none => ledger.closeEach line names
      | some _ => ((ledger.closeEach line names).closeBlanket line).disableEach line
          (known.filter (!names.contains ·)) := rfl

theorem enableAll_kept {ledger : Ledger} (hnd : ledger.single.keys.Nodup) (line : Nat) :
    Kept ledger (ledger.enableAll line) := by
  rw [enableAll_eq]
  have hkeys : (ledger.closeBlanket line).single.keys.Nodup := by
    rw [closeBlanket_single]
    exact hnd
  obtain ⟨-, hmarks, hfile, hnodup⟩ := closeEach_frame hkeys line ledger.single.keys
  exact ⟨hmarks.trans (closeBlanket_marks ledger line),
    hfile.trans (closeBlanket_fileDisabled ledger line), hnodup⟩

theorem enableAll_shut {ledger : Ledger} (hnd : ledger.single.keys.Nodup) (rule : String)
    (stop : Nat) : Shut ledger (ledger.enableAll stop) rule stop := by
  have hkeys : (ledger.closeBlanket stop).single.keys.Nodup := by
    rw [closeBlanket_single]
    exact hnd
  obtain ⟨hblanket, -⟩ := closeEach_frame hkeys stop ledger.single.keys
  rw [enableAll_eq]
  refine ⟨fun line => ?_, hblanket.trans (closeBlanket_blanket ledger stop), ?_⟩
  · rw [closeEach_closed hkeys, closeBlanket_closed]
    have hsingle : (ledger.closeBlanket stop).SingleOpen rule line ↔ ledger.SingleOpen rule line := by
      unfold SingleOpen
      rw [closeBlanket_single]
    -- A rule that is disabled by name is one of the names that are closed.
    have hmem : ledger.SingleOpen rule line → rule ∈ ledger.single.keys := by
      rintro ⟨first, hfirst, -⟩
      exact List.mem_map_of_mem (f := Prod.fst) (Table.mem_of_get?_eq_some hfirst)
    rw [hsingle]
    unfold Open
    constructor
    · rintro ((h | ⟨h, hlt⟩) | ⟨-, h, hlt⟩)
      · exact Or.inl h
      · exact Or.inr ⟨Or.inl h, hlt⟩
      · exact Or.inr ⟨Or.inr h, hlt⟩
    · rintro (h | ⟨h | h, hlt⟩)
      · exact Or.inl (Or.inl h)
      · exact Or.inl (Or.inr ⟨h, hlt⟩)
      · exact Or.inr ⟨hmem h, h, hlt⟩
  · rw [get?_closeEach hkeys, closeBlanket_single]
    by_cases hmem : rule ∈ ledger.single.keys
    · rw [if_pos hmem]
    · rw [if_neg hmem]
      exact Table.get?_eq_none_iff.mpr hmem

theorem enableSome_kept {ledger : Ledger} (hnd : ledger.single.keys.Nodup) (known : List String)
    (line : Nat) (names : List String) : Kept ledger (enableSome known ledger line names) := by
  obtain ⟨-, hmarks, hfile, hnodup⟩ := closeEach_frame hnd line names
  rw [enableSome_eq]
  cases (ledger.closeEach line names).blanket with
  | none => exact ⟨hmarks, hfile, hnodup⟩
  | some first =>
    have hkeys : ((ledger.closeEach line names).closeBlanket line).single.keys.Nodup := by
      rw [closeBlanket_single]
      exact hnodup
    exact ⟨(closeBlanket_marks _ line).trans hmarks,
      (closeBlanket_fileDisabled _ line).trans hfile, nodup_disableEach hkeys line _⟩

/-- Where a blanket was open, enabling some rules closes it and disables the other known rules. -/
theorem enableSome_closed {ledger : Ledger} (hnd : ledger.single.keys.Nodup) {known : List String}
    {stop : Nat} {names : List String} {rule : String} {line : Nat} :
    (enableSome known ledger stop names).Closed rule line ↔
      ledger.Closed rule line ∨ (rule ∈ names ∧ ledger.SingleOpen rule line ∧ line < stop) ∨
        (ledger.BlanketOpen line ∧ line < stop) := by
  obtain ⟨hblanket, -⟩ := closeEach_frame hnd stop names
  have hopen : (ledger.closeEach stop names).BlanketOpen line ↔ ledger.BlanketOpen line := by
    unfold BlanketOpen
    rw [hblanket]
  rw [enableSome_eq]
  cases hb : (ledger.closeEach stop names).blanket with
  | none =>
    have hnot : ¬ ledger.BlanketOpen line := by
      rintro ⟨first, hfirst, -⟩
      rw [← hblanket, hb] at hfirst
      simp at hfirst
    show (ledger.closeEach stop names).Closed rule line ↔ _
    rw [closeEach_closed hnd]
    simp [hnot]
  | some first =>
    show ((ledger.closeEach stop names).closeBlanket stop).Closed rule line ↔ _
    rw [closeBlanket_closed, closeEach_closed hnd, hopen, or_assoc]

theorem enableSome_blanket {ledger : Ledger} (known : List String) (line : Nat)
    (names : List String) : (enableSome known ledger line names).blanket = none := by
  rw [enableSome_eq]
  cases hb : (ledger.closeEach line names).blanket with
  | none => exact hb
  | some first => exact closeBlanket_blanket _ line

theorem get?_enableSome {ledger : Ledger} (hnd : ledger.single.keys.Nodup) {known : List String}
    {rule : String} (hknown : rule ∈ known) (line : Nat) (names : List String) :
    (enableSome known ledger line names).single.get? rule =
      if rule ∈ names then none
      else if ledger.blanket.isSome then some ((ledger.single.get? rule).getD line)
      else ledger.single.get? rule := by
  obtain ⟨hblanket, -⟩ := closeEach_frame hnd line names
  rw [enableSome_eq, ← hblanket]
  cases hb : (ledger.closeEach line names).blanket with
  | none => simp [get?_closeEach hnd]
  | some first =>
    show (disableEach _ line _).single.get? rule = _
    rw [get?_disableEach, closeBlanket_single, get?_closeEach hnd]
    by_cases hmem : rule ∈ names
    · simp [hmem]
    · simp [hmem, hknown]

theorem enableSome_shut {ledger : Ledger} (hnd : ledger.single.keys.Nodup) {known : List String}
    {rule : String} (hknown : rule ∈ known) {names : List String} (hmem : rule ∈ names)
    (stop : Nat) : Shut ledger (enableSome known ledger stop names) rule stop := by
  refine ⟨fun line => ?_, enableSome_blanket known stop names, ?_⟩
  · rw [enableSome_closed hnd]
    unfold Open
    refine or_congr Iff.rfl ?_
    constructor
    · rintro (⟨-, h, hlt⟩ | ⟨h, hlt⟩)
      · exact ⟨Or.inr h, hlt⟩
      · exact ⟨Or.inl h, hlt⟩
    · rintro ⟨h | h, hlt⟩
      · exact Or.inr ⟨h, hlt⟩
      · exact Or.inl ⟨hmem, h, hlt⟩
  · rw [get?_enableSome hnd hknown, if_pos hmem]

theorem enableSome_moved {ledger : Ledger} (hnd : ledger.single.keys.Nodup) {known : List String}
    {rule : String} (hknown : rule ∈ known) {names : List String} (hmem : rule ∉ names)
    (stop : Nat) : Moved ledger (enableSome known ledger stop names) rule stop := by
  refine ⟨fun line => ?_, enableSome_blanket known stop names, ?_⟩
  · rw [enableSome_closed hnd]
    simp [hmem]
  · rw [get?_enableSome hnd hknown, if_neg hmem]

/-- Enabling a rule, by name or with all others, closes whatever was open for it. -/
theorem enable_shut {ledger : Ledger} (hnd : ledger.single.keys.Nodup) {known : List String}
    {rule : String} (hknown : rule ∈ known) {names : List String} (hmem : names = [] ∨ rule ∈ names)
    (stop : Nat) : Shut ledger (ledger.enable known stop names) rule stop := by
  cases names with
  | nil => exact enableAll_shut hnd rule stop
  | cons name names => exact enableSome_shut hnd hknown (hmem.resolve_left (by simp)) stop

theorem enable_moved {ledger : Ledger} (hnd : ledger.single.keys.Nodup) {known : List String}
    {rule : String} (hknown : rule ∈ known) {names : List String} (hne : names ≠ [])
    (hmem : rule ∉ names) (stop : Nat) : Moved ledger (ledger.enable known stop names) rule stop := by
  cases names with
  | nil => exact absurd rfl hne
  | cons name names => exact enableSome_moved hnd hknown hmem stop

theorem enable_kept {ledger : Ledger} (hnd : ledger.single.keys.Nodup) (known : List String)
    (line : Nat) (names : List String) : Kept ledger (ledger.enable known line names) := by
  cases names with
  | nil => exact enableAll_kept hnd line
  | cons name names => exact enableSome_kept hnd known line _

end Ledger

end Suppressions

end YamlStyle
