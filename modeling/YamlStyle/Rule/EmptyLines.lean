import YamlStyle.Rule

/-!
# The rule `empty-lines`

Runs of blank lines may not be too long. There is a limit for the start of the document, one for its
end and one for everywhere else; the end goes before the start, and both go before the general one. A
run is reported on its last line, and the document that consists of a single line ending is fine.

Whether a blank line is the last of its run is read off the characters below it: two endings of the
same kind, both LF or both CR LF, continue the run. The length of the run is counted backwards over
the endings above it.
-/

set_option autoImplicit false

namespace YamlStyle

namespace EmptyLines

/-- How long a run of blank lines may be. -/
structure Limits where
  /-- In the midst of the document. -/
  inside : Int
  /-- At the start of the document. -/
  atStart : Int
  /-- At the end of the document. -/
  atEnd : Int
  deriving DecidableEq, Repr

/-- Count the line endings on top of a stack of characters, the nearest first, and tell whether they
go down to the bottom. CR LF is one ending. -/
def endingsAbove : Text → Nat × Bool
  | [] => (0, true)
  | '\n' :: '\r' :: rest => another (endingsAbove rest)
  | '\n' :: rest => another (endingsAbove rest)
  | '\r' :: rest => another (endingsAbove rest)
  | _ => (0, false)
where
  /-- One ending more. -/
  another : Nat × Bool → Nat × Bool
    | (count, bottom) => (count + 1, bottom)

/-- Whether the ending of a blank line is followed by another one of the same kind. -/
def continues (line : Line) : Bool :=
  match line.ending with
  | .lf => "\n".toList.isPrefixOf line.after
  | .crlf => "\r\n".toList.isPrefixOf line.after
  | _ => false

/-- The violation of the blank line that ends a run which is too long. -/
def check (limits : Limits) (line : Line) : Option Violation :=
  if line.isEmpty && line.isTerminated && !continues line then
    let (above, fromStart) := endingsAbove line.before
    let run := if fromStart then above + 1 else above
    let atEnd := line.after.isEmpty
    if atEnd && line.before.isEmpty then none
    else
      let limit :=
        if atEnd then limits.atEnd else if fromStart then limits.atStart else limits.inside
      if limit < run then some ⟨line.number, 1, s!"too many blank lines ({run} >= {limit})"⟩
      else none
  else none

/-- The limits that options ask for. -/
def Limits.ofOptions (options : RuleOptions) : Limits :=
  ⟨(options.int? "max").getD 2, (options.int? "max-start").getD 0, (options.int? "max-end").getD 0⟩

/-- The rule. -/
def rule : Rule where
  id := "empty-lines"
  description := "limit consecutive blank lines"
  granularity := .line
  enabledByDefault := true
  options :=
    [⟨"max", .int, .int 2, "maximum consecutive blank lines"⟩,
      ⟨"max-start", .int, .int 0, "maximum blank lines at the start of the file"⟩,
      ⟨"max-end", .int, .int 0, "maximum blank lines at the end of the file"⟩]
  build options := .ok (.line fun _ line => .ok (check (.ofOptions options) line).toList)

end EmptyLines

end YamlStyle
