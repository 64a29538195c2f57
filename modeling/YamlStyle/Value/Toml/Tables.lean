import YamlStyle.Value

/-!
# Tables of a TOML file under construction

A TOML file is read line by line, and every line adds to one tree. A key may be set once, and a table
may be opened once. Which other additions are allowed depends on how a table came to be:

* A table that was only named on the way to a deeper one does not count as opened.
* A dotted key may lead through any table that no header has opened. The table that it ends in has
  to be one that only dotted keys have named.
* An array of tables stands for its last element: headers and dotted keys lead into that one, and
  the elements before it are complete.

What is written in brackets or braces is complete and cannot be added to.
-/

set_option autoImplicit false

namespace YamlStyle

namespace Toml

/-- How a table came to be. -/
inductive Origin where
  /-- It was named on the way to a deeper table. -/
  | passed
  /-- It was opened by a header. -/
  | opened
  /-- It was named by a dotted key. -/
  | dotted
  deriving DecidableEq, Repr

/-- A value that is complete, a table that can be added to, or an array of tables. -/
inductive Node where
  | leaf (v : Value)
  | table (origin : Origin) (entries : List (String × Node))
  /-- The entries of the last table of an array, and the tables before it, the nearest first. -/
  | tables (last : List (String × Node)) (earlier : List Value)
  deriving Repr

mutual

/-- The value a node has become. -/
def Node.toValue : Node → Value
  | .leaf v => v
  | .table _ entries => .table (entryValues entries)
  | .tables last earlier => .list (earlier.reverse ++ [.table (entryValues last)])

/-- The values the entries of a table have become. -/
def entryValues : List (String × Node) → List (String × Value)
  | [] => []
  | (k, n) :: rest => (k, n.toValue) :: entryValues rest

end

/-- Whether a dotted key may lead into a table. `isLast` says that the table is the one in which the
last part of the key is set. -/
def Origin.takesDotted (isLast : Bool) : Origin → Bool
  | .dotted => true
  | .passed => !isLast
  | .opened => false

/-- Set a key of a table. -/
def setKey (value : Value) : List String → Table Node → Option (Table Node)
  | [], _ => none
  | [k], entries => if entries.has k then none else some (entries.insert k (.leaf value))
  | k :: rest, entries =>
    match entries.get? k with
    | none => (setKey value rest []).map fun es => entries.insert k (.table .dotted es)
    | some (.table origin es) =>
      if origin.takesDotted (rest.length == 1) then
        (setKey value rest es).map fun es => entries.insert k (.table origin es)
      else none
    | some (.tables last earlier) =>
      if rest.length == 1 then none
      else (setKey value rest last).map fun last => entries.insert k (.tables last earlier)
    | some (.leaf _) => none

/-- Change the entry at a path of names. `change` gets what is there already. Tables on the way that
are missing are made. -/
def changeEntry (change : Option Node → Option Node) : List String → Table Node → Option (Table Node)
  | [], _ => none
  | [k], entries => (change (entries.get? k)).map fun n => entries.insert k n
  | k :: rest, entries =>
    match entries.get? k with
    | none => (changeEntry change rest []).map fun es => entries.insert k (.table .passed es)
    | some (.table origin es) =>
      (changeEntry change rest es).map fun es => entries.insert k (.table origin es)
    | some (.tables last earlier) =>
      (changeEntry change rest last).map fun last => entries.insert k (.tables last earlier)
    | some (.leaf _) => none

/-- Open the table at a path. -/
def openTable : List String → Table Node → Option (Table Node) :=
  changeEntry fun
    | none => some (.table .opened [])
    | some (.table .passed es) => some (.table .opened es)
    | some _ => none

/-- Add a table to the array of tables at a path. -/
def addTable : List String → Table Node → Option (Table Node) :=
  changeEntry fun
    | none => some (.tables [] [])
    | some (.tables last earlier) => some (.tables [] (.table (entryValues last) :: earlier))
    | some _ => none

/-- Change the entries of the table at a path, or of the last table of the array there. -/
def changeTable (change : Table Node → Option (Table Node)) :
    List String → Table Node → Option (Table Node)
  | [], entries => change entries
  | k :: rest, entries =>
    match entries.get? k with
    | some (.table origin es) =>
      (changeTable change rest es).map fun es => entries.insert k (.table origin es)
    | some (.tables last earlier) =>
      (changeTable change rest last).map fun last => entries.insert k (.tables last earlier)
    | _ => none

end Toml

end YamlStyle
