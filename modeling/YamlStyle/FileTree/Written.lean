import YamlStyle.Text

/-!
# Written paths

What can be told from the text of a path without looking at a file system: the name at its end, and
the text of the path to the directory that name is in. Slashes and names `.` at the end of a path say
nothing and are passed over; of a path that is nothing but the root or `.`, that is all that is left.

Paths are cut from the end, so the functions that do it take their text in reverse.
-/

set_option autoImplicit false

namespace YamlStyle

namespace Written

/-- A path in reverse, without the slashes and the names `.` at its end. -/
def trimEnd : Text → Text
  | ['/'] => ['/']
  | '/' :: rest => trimEnd rest
  | '.' :: '/' :: rest => trimEnd ('/' :: rest)
  | text => text

/-- The name at the end of a path, unless it ends at the root, at `.` or at `..`. -/
def fileName? (path : Text) : Option Text :=
  let name := ((trimEnd path.reverse).takeWhile (· != '/')).reverse
  if name = [] ∨ name = ['.'] ∨ name = ['.', '.'] then none else some name

/-- The path to the directory of the name at the end of a path: empty if there is only that name. -/
def parent (path : Text) : Text :=
  (trimEnd ((trimEnd path.reverse).dropWhile (· != '/'))).reverse

/-- The path to the directory that a path is in, unless it is empty or the root. -/
def parent? (path : Text) : Option Text :=
  let trimmed := trimEnd path.reverse
  if trimmed = [] ∨ trimmed = ['/'] then none else some (parent path)

/-- A path and the paths to the directories above it, the nearest first. Every step shortens the path,
so its length is fuel enough. -/
def ancestors (path : Text) : List Text := go path.length path
where
  /-- The same, for so many steps. -/
  go : Nat → Text → List Text
    | 0, path => [path]
    | steps + 1, path =>
      match parent? path with
      | some above => path :: go steps above
      | none => [path]

/-- What follows the last dot of a name, unless that dot is its first character. -/
def extension? (name : Text) : Option Text :=
  let stem := (name.reverse.dropWhile (· != '.')).drop 1
  if stem.isEmpty then none else some (name.reverse.takeWhile (· != '.')).reverse

/-- A path followed by another one. A path that starts at the root stays as it is. -/
def join (dir path : Text) : Text :=
  match dir.getLast?, path.head? with
  | none, _ => path
  | _, some '/' => path
  | some '/', _ => dir ++ path
  | some _, _ => dir ++ '/' :: path

end Written

end YamlStyle
