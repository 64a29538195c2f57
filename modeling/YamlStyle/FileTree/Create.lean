import YamlStyle.FileTree

/-!
# Making directories and files

A directory is made together with those above it that are missing. The directory itself is tried
first, and only when something above it is missing is the one above it made, in the same way, and the
directory tried again. This decides what is said when there is a file in the way: further up, that it
is not a directory; at the place itself, that it exists.
-/

set_option autoImplicit false

namespace YamlStyle

namespace FileTree

/-- A tree with one more entry. -/
def insert (tree : FileTree) (path : Path) (entry : Entry) : FileTree :=
  ⟨tree.entries ++ [(path, entry)]⟩

/-- The place where a written path starts, and the names it goes on with. -/
def route (cwd : Path) (text : String) : Path × List String :=
  match text.toList with
  | '/' :: rest => ([], (Path.split rest).filter (· != ""))
  | text => (cwd, (Path.split text).filter (· != ""))

/-- See to it that there is a directory at the end of some names, in one that is there. -/
def ensureDirectory (tree : FileTree) (start : Path) (names : List String) :
    Except IoError FileTree :=
  match names.getLast? with
  | none => .ok tree
  | some name =>
    match tree.walk start names.dropLast with
    | .error e => .error e
    | .ok place =>
      match tree.entry? place with
      | none => .error .notFound
      | some (.file _) => .error .notDirectory
      | some .directory =>
        if name = "." ∨ name = ".." then .ok tree
        else
          match tree.entry? (place ++ [name]) with
          | none => .ok (tree.insert (place ++ [name]) .directory)
          | some .directory => .ok tree
          | some (.file _) => .error .alreadyExists

/-- See to it that there is a directory at the end of some names, the last one first, and above. -/
def ensureAll (tree : FileTree) (start : Path) : List String → Except IoError FileTree
  | [] => .ok tree
  | name :: above =>
    match tree.ensureDirectory start (name :: above).reverse with
    | .error .notFound =>
      match tree.ensureAll start above with
      | .error e => .error e
      | .ok tree => tree.ensureDirectory start (name :: above).reverse
    | outcome => outcome

/-- See to it that a written path leads to a directory. A name `.` at the end of the path is not
among the names that are made, and leads nowhere unless the name before it is there. -/
def createDirectories (tree : FileTree) (cwd : Path) (text : String) : Except IoError FileTree :=
  let (start, names) := route cwd text
  match tree.ensureDirectory start names with
  | .error .notFound =>
    match tree.ensureAll start ((names.filter (· != ".")).reverse.drop 1) with
    | .error e => .error e
    | .ok tree => tree.ensureDirectory start names
  | outcome => outcome

/-- See to it that a written path leads to a file. What is in a file that is there stays. The place
of the file is returned, with whether the file is new. -/
def openFile (tree : FileTree) (cwd : Path) (text : String) :
    Except IoError (FileTree × Path × Bool) :=
  match tree.locate cwd text with
  | .error e => .error e
  | .ok path =>
    match tree.entry? path with
    | some .directory => .error .isDirectory
    | some (.file _) => .ok (tree, path, false)
    | none =>
      match tree.entry? path.dropLast with
      | none => .error .notFound
      | some (.file _) => .error .notDirectory
      | some .directory => .ok (tree.insert path (.file ByteArray.empty), path, true)

end FileTree

end YamlStyle
