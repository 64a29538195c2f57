/-!
# Tables

Names with values, kept in the order of the names. Strings compare by code point, which for UTF-8 is
the order of their bytes, so a table lists its entries in byte order of the names.

A table is a list of pairs, and `insert`, `get?` and `erase` are the whole interface. Everything that
is looked up by name in this library (options, settings, configuration values) is one.
-/

set_option autoImplicit false

namespace YamlStyle

universe u

/-- Entries in increasing order of their names. -/
abbrev Table (α : Type u) := List (String × α)

namespace Table

variable {α : Type u}

/-- The value stored under a name. -/
def get? : Table α → String → Option α
  | [], _ => none
  | (k, v) :: rest, name => if k = name then some v else get? rest name

/-- Store a value under a name, in place of any earlier one. -/
def insert (name : String) (value : α) : Table α → Table α
  | [] => [(name, value)]
  | (k, v) :: rest =>
    if name < k then (name, value) :: (k, v) :: rest
    else if name = k then (name, value) :: rest
    else (k, v) :: insert name value rest

/-- Drop a name. -/
def erase (name : String) : Table α → Table α
  | [] => []
  | (k, v) :: rest => if k = name then rest else (k, v) :: erase name rest

/-- Store a value unless the name is taken. -/
def insertIfNew (name : String) (value : α) (table : Table α) : Table α :=
  match table.get? name with
  | some _ => table
  | none => table.insert name value

/-- Whether a name is stored. -/
def has (table : Table α) (name : String) : Bool := (table.get? name).isSome

/-- The names, in order. -/
def keys (table : Table α) : List String := table.map (·.1)

/-- Put entries into a table one after the other; the last of equal names wins. -/
def insertAll (table : Table α) (entries : List (String × α)) : Table α :=
  entries.foldl (fun t (k, v) => t.insert k v) table

/-- The table of a list of entries in any order; the last of equal names wins. -/
def ofList (entries : List (String × α)) : Table α := insertAll [] entries

end Table

/-- Put a name into a list of names kept in order without repetition. -/
def insertName (name : String) : List String → List String
  | [] => [name]
  | k :: rest =>
    if name < k then name :: k :: rest
    else if name = k then k :: rest
    else k :: insertName name rest

end YamlStyle
