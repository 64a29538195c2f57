/-!
# File trees

A snapshot of a file system: what the linter looks at is decided on such a snapshot, so that it can
be reasoned about. A tree lists its files, with their content, and its directories; a directory is
also there if something is in it.

A `Path` leads from the root to a place by names. The paths that people write are texts, relative to
a working directory, and may contain `.` and `..`; `locate` walks along them the way a file system
does, which can fail at every step.
-/

set_option autoImplicit false

namespace YamlStyle

/-- The names that lead from the root to a place. -/
abbrev Path := List String

namespace Path

/-- The written form of a path. -/
def render (path : Path) : String := "/" ++ "/".intercalate path

/-- The directory a path is in, unless it is the root. -/
def parent? (path : Path) : Option Path := if path.isEmpty then none else some path.dropLast

/-- The names in a written path. Doubled and trailing slashes leave empty names behind. -/
def split (text : List Char) : List String :=
  (go text).map String.ofList
where
  /-- The pieces between slashes. -/
  go : List Char → List (List Char)
    | [] => [[]]
    | c :: rest =>
      if c == '/' then [] :: go rest
      else
        match go rest with
        | piece :: pieces => (c :: piece) :: pieces
        | [] => [[c]]

end Path

/-- Why a file system refuses. -/
inductive IoError where
  | notFound
  | notDirectory
  | isDirectory
  | alreadyExists
  | invalidUtf8
  deriving DecidableEq, Repr

/-- The wording of a refusal. -/
def IoError.message : IoError → String
  | .notFound => "No such file or directory (os error 2)"
  | .alreadyExists => "File exists (os error 17)"
  | .notDirectory => "Not a directory (os error 20)"
  | .isDirectory => "Is a directory (os error 21)"
  | .invalidUtf8 => "stream did not contain valid UTF-8"

/-- What is at a place. -/
inductive Entry where
  | file (content : ByteArray)
  | directory
  deriving Inhabited

/-- The files and directories of a file system. -/
structure FileTree where
  entries : List (Path × Entry)

namespace FileTree

/-- Whether something is in a directory. -/
def hasBelow (tree : FileTree) (path : Path) : Bool :=
  tree.entries.any fun (p, _) => path.isPrefixOf p && decide (path.length < p.length)

/-- What is at a place, if anything is. -/
def entry? (tree : FileTree) (path : Path) : Option Entry :=
  match tree.entries.lookup path with
  | some e => some e
  | none => if path.isEmpty || tree.hasBelow path then some .directory else none

/-- Whether a regular file is at a place. -/
def isFile (tree : FileTree) (path : Path) : Bool :=
  match tree.entry? path with
  | some (.file _) => true
  | _ => false

/-- Go on from a place by names. Every place that is left has to be a directory. -/
def walk (tree : FileTree) : Path → List String → Except IoError Path
  | place, [] => .ok place
  | place, name :: rest =>
    match tree.entry? place with
    | none => .error .notFound
    | some (.file _) => .error .notDirectory
    | some .directory =>
      if name = "" ∨ name = "." then walk tree place rest
      else if name = ".." then walk tree place.dropLast rest
      else walk tree (place ++ [name]) rest

/-- The place a written path leads to from a working directory. -/
def locate (tree : FileTree) (cwd : Path) (text : String) : Except IoError Path :=
  match text.toList with
  | [] => .error .notFound
  | '/' :: rest => walk tree [] (Path.split rest)
  | text => walk tree cwd (Path.split text)

/-- What a written path leads to. -/
def find (tree : FileTree) (cwd : Path) (text : String) : Except IoError (Path × Entry) :=
  match tree.locate cwd text with
  | .error e => .error e
  | .ok path =>
    match tree.entry? path with
    | some entry => .ok (path, entry)
    | none => .error .notFound

/-- Whether a written path leads to a regular file. -/
def isFileAt (tree : FileTree) (cwd : Path) (text : String) : Bool :=
  match tree.find cwd text with
  | .ok (_, .file _) => true
  | _ => false

/-- Whether a written path leads to something. -/
def pathExists (tree : FileTree) (cwd : Path) (text : String) : Bool :=
  match tree.find cwd text with
  | .ok _ => true
  | .error _ => false

/-- The text of a file. -/
def readText (tree : FileTree) (cwd : Path) (text : String) : Except IoError String :=
  match tree.find cwd text with
  | .error e => .error e
  | .ok (_, .directory) => .error .isDirectory
  | .ok (_, .file content) =>
    match String.fromUTF8? content with
    | some s => .ok s
    | none => .error .invalidUtf8

/-- The number of bytes a directory is said to have. -/
def directorySize : Nat := 4096

/-- The number of bytes of what a written path leads to. -/
def size (tree : FileTree) (cwd : Path) (text : String) : Except IoError Nat :=
  match tree.find cwd text with
  | .error e => .error e
  | .ok (_, .file content) => .ok content.size
  | .ok (_, .directory) => .ok directorySize

/-- The directory a written path leads to. -/
def changeDirectory (tree : FileTree) (cwd : Path) (text : String) : Except IoError Path :=
  match tree.find cwd text with
  | .error e => .error e
  | .ok (path, .directory) => .ok path
  | .ok (_, .file _) => .error .notDirectory

end FileTree

end YamlStyle
