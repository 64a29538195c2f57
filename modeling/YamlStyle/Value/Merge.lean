import YamlStyle.Value

/-!
# Laying values over each other

A configuration is written in layers. Where two layers both have a table, the tables are united entry
by entry; in every other case the later layer replaces the earlier one, lists and nulls included.
-/

set_option autoImplicit false

namespace YamlStyle

namespace Value

mutual

/-- Lay a value over another. -/
def overlay (base : Value) : Value → Value
  | .table top =>
    match base with
    | .table entries => .table (overlayEntries entries top)
    | _ => .table top
  | top => top

/-- Lay the entries of a table over those of another. -/
def overlayEntries (base : Table Value) : List (String × Value) → Table Value
  | [] => base
  | (name, top) :: rest =>
    let merged :=
      match base.get? name with
      | some v => overlay v top
      | none => top
    overlayEntries (base.insert name merged) rest

end

/-- Lay values over each other, the first at the bottom. -/
def overlayAll (base : Value) (layers : List Value) : Value := layers.foldl overlay base

end Value

end YamlStyle
