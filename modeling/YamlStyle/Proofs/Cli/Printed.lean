import Mathlib.Algebra.GroupWithZero.Nat
import Mathlib.Data.List.Forall2
import YamlStyle.Cli.Lint
import YamlStyle.Proofs.Json.Meaning

/-!
# What is printed of a report

A report is printed for other programs or for people. For other programs it is a JSON document, and it
is the meaning of the document that counts, however it is written. What **shows** a report is said entry
by entry, by the names under which a program looks them up. For people it is **prose**: a paragraph for
every file with problems, and in it a row for every problem.

Either form goes with the same exit code. `Outcome.Reports` puts this together, and
`LintReport.reports_render` says that it is what is made of a report.
-/

set_option autoImplicit false

namespace YamlStyle

/-! ## For programs -/

/-- A value in which a problem can be looked up. -/
structure Problem.ShownBy (p : Problem) (v : Value) : Prop where
  line : v.get? "line" = some (.int p.line)
  column : v.get? "column" = some (.int p.column)
  message : v.get? "message" = some (.str p.message)
  rule : v.get? "rule" = some (.str p.rule)
  level : ∃ word, v.get? "level" = some (.str word) ∧ (word, p.level) ∈ Level.words

theorem Problem.shownBy_toValue (p : Problem) : p.ShownBy p.toValue where
  line := rfl
  column := rfl
  message := rfl
  rule := rfl
  level := ⟨p.level.name, rfl, by cases p.level <;> simp [Level.words, Level.name]⟩

theorem Problem.faithful_toValue (p : Problem) : Json.Faithful p.toValue := by
  refine Json.faithful_table fun m hm => ?_
  simp only [List.mem_cons, List.not_mem_nil, or_false] at hm
  rcases hm with rfl | rfl | rfl | rfl | rfl
  · exact Json.faithful_int _
  · exact Json.faithful_int _
  · exact Json.faithful_str _
  · exact Json.faithful_str _
  · exact Json.faithful_str _

namespace Cli

/-- A value in which a file and its problems can be looked up. -/
structure FileReport.ShownBy (r : FileReport) (v : Value) : Prop where
  file : v.get? "file" = some (.str r.file)
  problems : ∃ items, v.get? "problems" = some (.list items) ∧
    List.Forall₂ Problem.ShownBy r.problems items

namespace FileReport

/-- A file and its problems, as an entry of a report. -/
def entry (r : FileReport) : Value :=
  .table [("file", .str r.file), ("problems", .list (r.problems.map Problem.toValue))]

theorem shownBy_entry (r : FileReport) : r.ShownBy r.entry where
  file := rfl
  problems := by
    refine ⟨_, rfl, ?_⟩
    exact List.forall₂_map_right_iff.mpr (List.forall₂_same.mpr fun p _ => p.shownBy_toValue)

theorem faithful_entry (r : FileReport) : Json.Faithful r.entry := by
  refine Json.faithful_table fun m hm => ?_
  simp only [List.mem_cons, List.not_mem_nil, or_false] at hm
  rcases hm with rfl | rfl
  · exact Json.faithful_str _
  · exact Json.faithful_list (List.forall_mem_map.mpr fun p _ => p.faithful_toValue)

end FileReport

namespace LintReport

/-- The number of problems of a level that are listed, file by file. -/
def total (report : LintReport) (level : Level) : Nat :=
  (report.files.map fun r => (r.problems.filter (·.level == level)).length).sum

theorem count_eq_total (report : LintReport) (level : Level) :
    report.count level = report.total level := by
  rw [count, problems, total, List.countP_flatMap]
  congr 1
  apply List.map_congr_left
  intro r _
  exact List.countP_eq_length_filter

/-- A value in which a report can be looked up. Where no file is ignored, nothing is said of ignored
files. -/
structure ShownBy (report : LintReport) (v : Value) : Prop where
  files : ∃ items, v.get? "files" = some (.list items) ∧
    List.Forall₂ FileReport.ShownBy report.files items
  ignored : v.get? "ignored" =
    if report.ignored = [] then none else some (.list (report.ignored.map .str))
  errors : v.get? "errors" = some (.int (report.total .error))
  warnings : v.get? "warnings" = some (.int (report.total .warning))

theorem shownBy_toValue (report : LintReport) : report.ShownBy report.toValue where
  files := by
    refine ⟨report.files.map FileReport.entry, rfl, ?_⟩
    exact List.forall₂_map_right_iff.mpr (List.forall₂_same.mpr fun r _ => r.shownBy_entry)
  ignored := by
    rw [toValue, Value.get?]
    cases report.ignored <;> simp [Table.get?]
  errors := by
    rw [toValue, count_eq_total, Value.get?]
    cases report.ignored <;> simp [Table.get?]
  warnings := by
    rw [toValue, count_eq_total, Value.get?]
    cases report.ignored <;> simp [Table.get?, count_eq_total]

theorem faithful_toValue (report : LintReport) : Json.Faithful report.toValue := by
  refine Json.faithful_table fun m hm => ?_
  rcases List.mem_append.mp hm with hm | hm
  · rcases List.mem_append.mp hm with hm | hm
    · obtain rfl := List.mem_singleton.mp hm
      exact Json.faithful_list (List.forall_mem_map.mpr fun r _ => r.faithful_entry)
    · split at hm
      · exact absurd hm List.not_mem_nil
      · obtain rfl := List.mem_singleton.mp hm
        exact Json.faithful_list (List.forall_mem_map.mpr fun file _ => Json.faithful_str file)
  · simp only [List.mem_cons, List.not_mem_nil, or_false] at hm
    rcases hm with rfl | rfl
    · exact Json.faithful_int _
    · exact Json.faithful_int _

end LintReport

/-! ## For people -/

/-- A level in its colour. -/
def coloured : Level → String
  | .error => "\x1b[31merror\x1b[39m"
  | .warning => "\x1b[33mwarning\x1b[39m"

/-- A problem in a row: its place, dimmed and eight columns wide at least, its level, its message, and
the rule, dimmed. -/
def row (p : Problem) : String :=
  String.join ["  \x1b[2m", String.ofList (s!"{p.line}:{p.column}".toList.rightpad 8 ' '), "\x1b[0m ",
    coloured p.level, "  ", p.message, "  \x1b[2m(", p.rule, ")\x1b[0m\n"]

/-- A file, bold and underlined, and its problems. -/
def FileReport.paragraph (r : FileReport) : String :=
  "\x1b[4m\x1b[1m" ++ r.file ++ "\x1b[0m\x1b[0m\n" ++ String.join (r.problems.map row)

/-- The files that have problems, with an empty line between each two. Other files are not mentioned,
be they clean or ignored. -/
def LintReport.prose (report : LintReport) : String :=
  "\n".intercalate ((report.files.filter (·.problems ≠ [])).map FileReport.paragraph)

example : row ⟨1, 5, "trailing spaces", "trailing-spaces", .error⟩ =
    "  \x1b[2m1:5     \x1b[0m \x1b[31merror\x1b[39m  trailing spaces  \x1b[2m(trailing-spaces)\x1b[0m\n" := by
  decide +kernel

/-- What is to be seen of a run that has a report. -/
structure Outcome.Reports (outcome : Outcome) (report : LintReport) (json strict : Bool) : Prop where
  exit : outcome.exit = if 0 < report.total .error then 1
    else if strict = true ∧ 0 < report.total .warning then 2 else 0
  /-- Programs are given one JSON document, and everything can be looked up in it. -/
  shown : json = true → ∃ (d : Json.Document) (v : Value), d.text = outcome.stdout.toList ∧
    d.meaning? = some v ∧ report.ShownBy v
  told : json = false → outcome.stdout = report.prose
  quiet : outcome.stderr = ""

end Cli

end YamlStyle
