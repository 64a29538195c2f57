import YamlStyle.Value.Yaml.Lexer
import YamlStyle.Value.Yaml.Node
import YamlStyle.Value.Yaml.Words

/-!
# YAML configuration files

A file is read in three steps: characters become lexemes, lexemes become a tree of nodes, and the nodes
become values. This module is the last step.

A scalar in quotes is a string, and a plain one is what its word stands for. A tag of the YAML
repository makes a scalar what the tag says, or is an error if that cannot be; a local tag is always
one. Names of entries are scalars, and the last of equal names wins.

An alias is replaced by what it stands for. An alias may stand for a node that contains it, so the depth
of nesting is bounded, and so is the number of replacements.
-/

set_option autoImplicit false

namespace YamlStyle

namespace Yaml

/-- How often aliases may be replaced, for each place of the document. -/
def replacementsPerPlace : Nat := 100

/-- The value of a scalar with a tag. -/
def taggedValue? (tag text : Text) : Option Value :=
  if tag == "tag:yaml.org,2002:bool".toList then (bool? text).map .bool
  else if tag == "tag:yaml.org,2002:int".toList then (integer? text).map .int
  else if tag == "tag:yaml.org,2002:float".toList then
    if isFloat text then some (.float (String.ofList text)) else none
  else if tag == "tag:yaml.org,2002:null".toList then if isNull text then some .null else none
  else some (.str (String.ofList text))

/-- Whether a tag is local. -/
def isLocal (tag : Option Text) : Bool := (tag.map (startsWithAny "!")).getD false

/-- The value of a scalar. -/
def scalarValue? (tag : Option Text) (isPlain : Bool) (text : Text) : Option Value :=
  match tag with
  | some tag => taggedValue? tag text
  | none => some (if isPlain then wordValue text else .str (String.ofList text))

/-- A computation in which aliases are replaced. The state is how many replacements are left. -/
abbrev Replacing := StateT Nat Option

/-- The node that an alias stands for; every other node stands for itself. -/
def target (anchors : List (Nat × Node)) : Node → Replacing Node
  | .alias label => do
    match ← get with
    | 0 => failure
    | left + 1 =>
      set left
      match anchors.lookup label with
      | some node => pure node
      | none => failure
  | node => pure node

/-- The name of an entry. -/
def name (anchors : List (Nat × Node)) (node : Node) : Replacing String := do
  match ← target anchors node with
  | .scalar _ _ text => pure (String.ofList text)
  | _ => failure

/-- The value of a scalar. A local tag has no meaning here. -/
def leaf (properties : Properties) (isPlain : Bool) (text : Text) : Replacing Value :=
  match isLocal properties.tag, scalarValue? properties.tag isPlain text with
  | false, some v => pure v
  | _, _ => failure

/-- The table of some entries, of which `read` reads the values. -/
def table (anchors : List (Nat × Node)) (read : Node → Replacing Value)
    (pairs : List (Node × Node)) : Replacing Value := do
  let entries ← pairs.mapM fun (key, v) => do
    let key ← name anchors key
    let v ← read v
    pure (key, v)
  pure (.table (Table.ofList entries))

/-- The value of a node. The number is how many more collections may be opened. -/
def value (anchors : List (Nat × Node)) : Nat → Node → Replacing Value
  | 0, node => do
    match ← target anchors node with
    | .scalar properties isPlain text => leaf properties isPlain text
    | _ => failure
  | depth + 1, node => do
    match ← target anchors node with
    | .scalar properties isPlain text => leaf properties isPlain text
    | .sequence properties items =>
      if isLocal properties.tag then failure
      else
        let items ← items.mapM fun item => value anchors depth item
        pure (.list items)
    | .mapping properties pairs =>
      if isLocal properties.tag then failure
      else table anchors (fun v => value anchors depth v) pairs
    | .alias _ => failure

/-- The value of a whole document: a table, which is empty if nothing is written. Its tag does not
matter. -/
def documentValue? (root : Node) : Option Value :=
  match root with
  | .scalar _ true [] => some (.table [])
  | .mapping _ pairs =>
    let anchors := root.labelled.reverse
    ((table anchors (value anchors (maxDepth - 1)) pairs).run
      (replacementsPerPlace * root.size)).map (·.1)
  | _ => none

/-- Read a file. -/
def parse? (text : Text) : Option Value := do
  let root ← Node.ofLexemes? (← Lexeme.ofText? text)
  documentValue? root

end Yaml

end YamlStyle
