import YamlStyle.Value.Yaml.Lexeme

/-!
# From lexemes to nodes

A document is a tree of scalars, sequences and mappings. A node may have an anchor, and an alias stands
for the node with its anchor.

Anchors are numbered in the order in which they are met: a node gets the number of different names in
front of it. A name that is given once more gets a new number, and that number is given again to the
next new name; of all nodes with one number the last counts, also for aliases in front of it.

Every reader here takes lexemes from the front. Where a node may be missing it is an empty plain
scalar.
-/

set_option autoImplicit false

namespace YamlStyle

namespace Yaml

/-- What is said about a node. -/
structure Properties where
  /-- The number of its anchor. -/
  label : Option Nat := none
  /-- Its tag, written out. -/
  tag : Option Text := none
  deriving Repr

/-- A node. -/
inductive Node where
  /-- The node with this number. -/
  | alias (label : Nat)
  | scalar (properties : Properties) (isPlain : Bool) (text : Text)
  | sequence (properties : Properties) (items : List Node)
  | mapping (properties : Properties) (pairs : List (Node × Node))
  deriving Repr

namespace Node

/-- A node of which nothing is written. -/
def empty : Node := .scalar {} true []

/-- What is left to read: the lexemes, and the anchors that have been met. -/
structure Source where
  lexemes : List Lexeme
  anchors : Table Nat := []

namespace Source

/-- Pass over a lexeme. -/
def skip (source : Source) : Source := { source with lexemes := source.lexemes.drop 1 }

/-- Whether the next lexeme is one of these. -/
def isAt (source : Source) (stops : List Lexeme) : Bool :=
  match source.lexemes with
  | [] => false
  | lexeme :: _ => stops.contains lexeme

/-- Number an anchor. -/
def addAnchor (source : Source) (name : Text) : Nat × Source :=
  let label := source.anchors.length
  (label, { source with anchors := source.anchors.insert (String.ofList name) label })

end Source

/-! ## Properties -/

/-- What the handles of tags stand for. -/
abbrev Handles := List (Text × Text)

/-- A tag, written out. -/
def expandTag? (handles : Handles) (handle suffix : Text) : Option Text :=
  if handle.isEmpty then some suffix else (handles.lookup handle).map (· ++ suffix)

/-- The anchor and the tag in front of a node, each at most once and in either order. -/
def properties? (handles : Handles) (source : Source) : Option (Properties × Source) :=
  match source.lexemes with
  | .anchor name :: .tag handle suffix :: rest | .tag handle suffix :: .anchor name :: rest =>
    (expandTag? handles handle suffix).map fun tag =>
      let (label, source) := { source with lexemes := rest }.addAnchor name
      (⟨some label, some tag⟩, source)
  | .anchor name :: rest =>
    let (label, source) := { source with lexemes := rest }.addAnchor name
    some (⟨some label, none⟩, source)
  | .tag handle suffix :: rest =>
    (expandTag? handles handle suffix).map fun tag =>
      (⟨none, some tag⟩, { source with lexemes := rest })
  | _ => some ({}, source)

/-- The properties of a scalar. An exclamation mark alone is no tag. -/
def scalarProperties (properties : Properties) : Properties :=
  if properties.tag == some ['!'] then { properties with tag := none } else properties

/-! ## Nodes -/

/-- What may stand at a place. -/
inductive Place where
  /-- A node inside brackets, where no block collection can begin. -/
  | flow
  /-- Any node. -/
  | block
  /-- A key or a value of a block mapping: any node, or a sequence without an indentation of its
  own. -/
  | entry
  deriving DecidableEq, Repr

mutual

/-- Read a node. -/
def node? (handles : Handles) : Nat → Place → Source → Option (Node × Source)
  | 0, _, _ => none
  | fuel + 1, place, source =>
    match source.lexemes with
    | .alias name :: _ =>
      (source.anchors.get? (String.ofList name)).map fun label => (.alias label, source.skip)
    | _ => do
      let (properties, source) ← properties? handles source
      match source.lexemes, place with
      | .scalar isPlain text :: _, _ =>
        some (.scalar (scalarProperties properties) isPlain text, source.skip)
      | .openBracket :: _, _ =>
        let (items, source) ← flowItems? handles fuel true source.skip
        some (.sequence properties items, source)
      | .openBrace :: _, _ =>
        let (pairs, source) ← flowPairs? handles fuel true source.skip
        some (.mapping properties pairs, source)
      | .dash :: _, .entry =>
        let (items, source) ← items? handles fuel source
        some (.sequence properties items, source)
      | .blockSequence :: _, .block | .blockSequence :: _, .entry =>
        let (items, source) ← items? handles fuel source.skip
        if source.isAt [.blockEnd] then some (.sequence properties items, source.skip) else none
      | .blockMapping :: _, .block | .blockMapping :: _, .entry =>
        let (pairs, source) ← pairs? handles fuel source.skip
        some (.mapping properties pairs, source)
      | _, _ =>
        if properties.label.isSome || properties.tag.isSome then
          some (.scalar properties true [], source)
        else none

/-- Read a node, unless one of these lexemes shows that it is missing. -/
def optional? (handles : Handles) : Nat → Place → List Lexeme → Source → Option (Node × Source)
  | 0, _, _, _ => none
  | fuel + 1, place, stops, source =>
    if source.isAt stops then some (empty, source) else node? handles fuel place source

/-- Read the items of a block sequence. -/
def items? (handles : Handles) : Nat → Source → Option (List Node × Source)
  | 0, _ => none
  | fuel + 1, source =>
    match source.lexemes with
    | .dash :: _ => do
      let (item, source) ← optional? handles fuel .block [.dash, .key, .colon, .blockEnd] source.skip
      let (items, source) ← items? handles fuel source
      some (item :: items, source)
    | _ => some ([], source)

/-- Read the pairs of a block mapping, up to its end. -/
def pairs? (handles : Handles) : Nat → Source → Option (List (Node × Node) × Source)
  | 0, _ => none
  | fuel + 1, source =>
    match source.lexemes with
    | .key :: _ => do
      let (key, source) ← optional? handles fuel .entry [.key, .colon, .blockEnd] source.skip
      let (value, source) ←
        if source.isAt [.colon] then
          optional? handles fuel .entry [.key, .colon, .blockEnd] source.skip
        else some (empty, source)
      let (pairs, source) ← pairs? handles fuel source
      some ((key, value) :: pairs, source)
    | .blockEnd :: _ => some ([], source.skip)
    | _ => none

/-- Read the value of a key inside brackets, if there is a colon. -/
def flowValue? (handles : Handles) : Nat → Lexeme → Source → Option (Node × Source)
  | 0, _, _ => none
  | fuel + 1, close, source =>
    if source.isAt [.colon] then optional? handles fuel .flow [.comma, close] source.skip
    else some (empty, source)

/-- Read the items of a flow sequence, up to its closing bracket. A comma may stand behind the last. An
item may be a single pair. -/
def flowItems? (handles : Handles) : Nat → Bool → Source → Option (List Node × Source)
  | 0, _, _ => none
  | fuel + 1, isFirst, source =>
    if source.isAt [.closeBracket] then some ([], source.skip)
    else if !isFirst && !source.isAt [.comma] then none
    else
      let source := if isFirst then source else source.skip
      if source.isAt [.closeBracket] then some ([], source.skip)
      else do
        let (item, source) ←
          if source.isAt [.key] then flowPair? handles fuel source.skip
          else node? handles fuel .flow source
        let (items, source) ← flowItems? handles fuel false source
        some (item :: items, source)

/-- Read a single pair of a flow sequence. If its key is missing, the lexeme that shows it is passed
over. -/
def flowPair? (handles : Handles) : Nat → Source → Option (Node × Source)
  | 0, _ => none
  | fuel + 1, source => do
    let (key, source) ←
      if source.isAt [.colon, .comma, .closeBracket] then some (empty, source.skip)
      else node? handles fuel .flow source
    let (value, source) ← flowValue? handles fuel .closeBracket source
    some (.mapping {} [(key, value)], source)

/-- Read the pairs of a flow mapping, up to its closing brace. A comma may stand behind the last. A node
without the mark of a key has no value. -/
def flowPairs? (handles : Handles) :
    Nat → Bool → Source → Option (List (Node × Node) × Source)
  | 0, _, _ => none
  | fuel + 1, isFirst, source =>
    if source.isAt [.closeBrace] then some ([], source.skip)
    else if !isFirst && !source.isAt [.comma] then none
    else
      let source := if isFirst then source else source.skip
      if source.isAt [.closeBrace] then some ([], source.skip)
      else do
        let (key, value, source) ←
          if source.isAt [.key] then do
            let (key, source) ←
              optional? handles fuel .flow [.colon, .comma, .closeBrace] source.skip
            let (value, source) ← flowValue? handles fuel .closeBrace source
            some (key, value, source)
          else (node? handles fuel .flow source).map fun (key, source) => (key, empty, source)
        let (pairs, source) ← flowPairs? handles fuel false source
        some ((key, value) :: pairs, source)

end

/-! ## Documents -/

/-- The handles that need no directive. -/
def defaultHandles : Handles := [("!".toList, "!".toList), ("!!".toList, "tag:yaml.org,2002:".toList)]

/-- Read the directives in front of a document. There may be one version, which has to be known, and
each handle may be given once. -/
def directives? (hasVersion : Bool) (handles : Handles) : List Lexeme → Option (Handles × List Lexeme)
  | .version major minor :: rest =>
    if !hasVersion && major == 1 && (minor == 1 || minor == 2) then directives? true handles rest
    else none
  | .handle name expansion :: rest =>
    if (handles.lookup name).isSome then none
    else directives? hasVersion ((name, expansion) :: handles) rest
  | rest => some (handles ++ defaultHandles, rest)

/-- Whether nothing more comes than marks of the end of a document. -/
def isEnd (lexemes : List Lexeme) : Bool := lexemes.all (· == .documentEnd)

/-- Read the node that a document consists of. -/
def root? (handles : Handles) (lexemes : List Lexeme) : Option (Node × List Lexeme) :=
  (node? handles (4 * lexemes.length + 4) .block ⟨lexemes, []⟩).map fun (node, source) =>
    (node, source.lexemes)

/-- Read a file: nothing at all, or one document. -/
def ofLexemes? (lexemes : List Lexeme) : Option Node :=
  let document : Option (Node × List Lexeme) :=
    match lexemes with
    | [] => some (empty, [])
    | .version _ _ :: _ | .handle _ _ :: _ | .documentStart :: _ =>
      match directives? false [] lexemes with
      | some (handles, .documentStart :: rest) =>
        match rest with
        | [] => some (empty, [])
        | .documentEnd :: _ => some (empty, rest)
        | _ => root? handles rest
      | _ => none
    | _ => root? defaultHandles lexemes
  match document with
  | some (node, rest) => if isEnd rest then some node else none
  | none => none

mutual

/-- The number of places at which a node and those inside it begin or end. -/
def size : Node → Nat
  | .alias _ => 1
  | .scalar _ _ _ => 1
  | .sequence _ items => itemsSize items + 2
  | .mapping _ pairs => pairsSize pairs + 2

/-- The same for all of some nodes. -/
def itemsSize : List Node → Nat
  | [] => 0
  | node :: rest => node.size + itemsSize rest

/-- The same for all of some pairs. -/
def pairsSize : List (Node × Node) → Nat
  | [] => 0
  | (key, value) :: rest => key.size + value.size + pairsSize rest

end

mutual

/-- The nodes with an anchor, each in front of those inside it. -/
def labelled : Node → List (Nat × Node)
  | .alias _ => []
  | .scalar properties isPlain text =>
    properties.label.toList.map (·, .scalar properties isPlain text)
  | .sequence properties items =>
    properties.label.toList.map (·, .sequence properties items) ++ itemsLabelled items
  | .mapping properties pairs =>
    properties.label.toList.map (·, .mapping properties pairs) ++ pairsLabelled pairs

/-- The same for all of some nodes. -/
def itemsLabelled : List Node → List (Nat × Node)
  | [] => []
  | node :: rest => node.labelled ++ itemsLabelled rest

/-- The same for all of some pairs. -/
def pairsLabelled : List (Node × Node) → List (Nat × Node)
  | [] => []
  | (key, value) :: rest => key.labelled ++ value.labelled ++ pairsLabelled rest

end

end Node

end Yaml

end YamlStyle
