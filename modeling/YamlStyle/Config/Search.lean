import YamlStyle.FileTree
import YamlStyle.FileTree.Written

/-!
# Looking for configuration files

The configuration of a project is looked for in the directory one works in, then in the one above it,
and so on. The first directory that holds a configuration file ends the search, and all configuration
files of that directory count. The search also ends at a directory that holds a marker, the place
where a project begins; only the directory in which the search starts is not examined for one.

Which directory is above another is told from the written path alone, without looking at the file
system, and the files that are found are named by way of the path they were found on.

A user may have a configuration file as well, of which only the first counts.
-/

set_option autoImplicit false

namespace YamlStyle

namespace Search

/-- The formats of configuration files by their extensions, in the order in which they are read. -/
def extensions : List String := ["toml", "yaml", "yml", "json"]

/-- The names of the configuration files of a project, in the order in which they are read: those
that are hidden come first. -/
def projectNames : List String :=
  [".ymlint", "ymlint"].flatMap fun stem => extensions.map fun ext => stem ++ "." ++ ext

/-- The names of the configuration file of a user. -/
def userNames : List String := extensions.map ("config." ++ ·)

/-- The configuration files of a project that are in a directory. -/
def filesIn (tree : FileTree) (cwd : Path) (dir : Text) : List String :=
  (projectNames.map fun name => String.ofList (Written.join dir name.toList)).filter
    (tree.isFileAt cwd)

/-- Whether a directory holds the marker, if there is one to look for. -/
def isBoundary (tree : FileTree) (cwd : Path) (marker : Option String) (dir : Text) : Bool :=
  match marker with
  | some name => tree.pathExists cwd (String.ofList (Written.join dir name.toList))
  | none => false

/-- Search a list of directories. The first is the one where the search starts if `isStart`. -/
def firstWithFiles (tree : FileTree) (cwd : Path) (marker : Option String) (isStart : Bool) :
    List Text → List String
  | [] => []
  | dir :: above =>
    match filesIn tree cwd dir with
    | [] =>
      if isBoundary tree cwd marker dir && !isStart then []
      else firstWithFiles tree cwd marker false above
    | found => found

/-- The configuration files of a project. -/
def projectFiles (tree : FileTree) (cwd : Path) (marker : Option String) (start : String) :
    List String :=
  firstWithFiles tree cwd marker true (Written.ancestors start.toList)

/-- The configuration file of a user, in the directory for it. -/
def userFile? (tree : FileTree) (dir : Path) : Option Path :=
  (userNames.map fun name => dir ++ [name]).find? tree.isFile

end Search

end YamlStyle
