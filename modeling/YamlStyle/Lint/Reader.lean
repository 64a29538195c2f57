import YamlStyle.Lint

/-!
# Reading problems one by one

A reader hands out the problems of a document in order, and can be asked at any time about those that
are left.
-/

set_option autoImplicit false

namespace YamlStyle

/-- The problems that have not been handed out. -/
structure Reader where
  remaining : List Problem
  deriving DecidableEq, Repr

namespace Reader

/-- A reader at the start of the problems of a document. -/
def ofText (linter : Linter) (text : Text) : Reader := ⟨linter.lint text⟩

/-- Hand out the next problem. -/
def next (reader : Reader) : Option Problem × Reader :=
  (reader.remaining.head?, ⟨reader.remaining.tail⟩)

/-- Pass over `n` problems and hand out the one after them. -/
def skip (reader : Reader) (n : Nat) : Option Problem × Reader :=
  next ⟨reader.remaining.drop n⟩

/-- Number of problems left. -/
def size (reader : Reader) : Nat := reader.remaining.length

/-- Whether one of the problems left is an error. -/
def hasErrors (reader : Reader) : Bool := Problem.anyError reader.remaining

end Reader

end YamlStyle
