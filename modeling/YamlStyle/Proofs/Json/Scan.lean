import YamlStyle.Proofs.Json.Lexeme
import YamlStyle.Proofs.Scanner.Layout

/-!
# The scanner accepts JSON

JSON is nearly a part of YAML, and the scanner reads a JSON document as what it is, if no colon is
glued to a literal behind it (`yamlScanner_json`). There is no fault, and its tokens are the structure of
the document: one for each bracket, comma, colon and literal, in order and with the same text.

A tree is of no use to a proof about the scanner, which knows nothing but the open collections. So the
proof has two halves. One says what the scanner needs of a sequence of tiles: brackets that match, commas
and colons inside of collections only, and literals without quotes at the end of an entry. Such a
sequence is **legal**, and it is read tile by tile. The other says that the tiles of a tree are legal,
by induction over the tree and for any legal sequence behind it.
-/

set_option autoImplicit false

namespace YamlStyle

namespace Json

/-! ## Legal sequences -/

/-- Gaps aside, the tiles are over, or a comma or a closing bracket is next. -/
def EndsEntry : List Tile → Prop
  | [] => True
  | .gap _ :: rest => EndsEntry rest
  | .comma :: _ => True
  | .closing _ :: _ => True
  | _ => False

/-- Tiles that can be read while the collections `flow` are open, the innermost first. -/
def Legal (flow : List Bracket) : List Tile → Prop
  | [] => flow = []
  | .gap _ :: rest => Legal flow rest
  | .opening bracket :: rest => Legal (bracket :: flow) rest
  | .closing bracket :: rest => ∃ outer, flow = bracket :: outer ∧ Legal outer rest
  | .comma :: rest => flow ≠ [] ∧ Legal flow rest
  | .colon :: rest => flow ≠ [] ∧ Legal flow rest
  | .literal l :: rest => (l.isBare = true → EndsEntry rest) ∧ Legal flow rest

/-! ## The tiles of a tree are legal -/

-- A value in the midst of a document is followed by the rest of it, so the rest is part of each of
-- the three statements. It ends an entry, for that is where a value stands.
mutual

theorem Node.legal : ∀ (node : Node) {flow : List Bracket} {rest : List Tile}, EndsEntry rest →
    Legal flow rest → Legal flow (node.tiles ++ rest)
  | .literal l, flow, rest, hends, hrest => ⟨fun _ => hends, hrest⟩
  | .empty bracket gap, flow, rest, hends, hrest => ⟨flow, rfl, hrest⟩
  | .filled bracket entries, flow, rest, hends, hrest => by
    have hclosing : Legal (bracket :: flow) (.closing bracket :: rest) := ⟨flow, rfl, hrest⟩
    rw [Node.tiles, List.cons_append, List.append_assoc]
    exact entries.legal hclosing

theorem Entry.legal : ∀ {bracket : Bracket} (entry : Entry bracket) {outer : List Bracket}
    {rest : List Tile}, EndsEntry rest → Legal (bracket :: outer) rest →
    Legal (bracket :: outer) (entry.tiles ++ rest)
  | _, .item value, outer, rest, hends, hrest => by
    rw [Entry.tiles]
    exact value.legal hends hrest
  | _, .member name before after value, outer, rest, hends, hrest => by
    have hvalue : Legal (.curly :: outer) (value.tiles ++ rest) := value.legal hends hrest
    exact ⟨fun hbare => absurd hbare (by simp [Literal.isBare]), by simp, hvalue⟩

theorem Entries.legal : ∀ {bracket : Bracket} (entries : Entries bracket) {outer : List Bracket}
    {rest : List Tile}, Legal (bracket :: outer) (.closing bracket :: rest) →
    Legal (bracket :: outer) (entries.tiles ++ .closing bracket :: rest)
  | bracket, .last before entry after, outer, rest, hrest => by
    rw [Entries.tiles, List.cons_append, List.append_assoc]
    exact entry.legal trivial hrest
  | bracket, .more before entry after others, outer, rest, hrest => by
    have hothers := others.legal hrest
    rw [Entries.tiles, List.cons_append, List.append_assoc]
    exact entry.legal trivial ⟨by simp, hothers⟩

end

theorem Document.legal (d : Document) : Legal [] d.tiles :=
  d.node.legal trivial rfl

/-! ## Legal tiles are read tile by tile -/

/-- The tokens of tiles, the first of which stands at a byte offset. -/
def tokensAt (offset : Nat) : List Tile → List RawToken
  | [] => []
  | tile :: rest =>
    (tile.kind?.map fun kind => ⟨kind, offset, offset + width tile.text⟩).toList ++
      tokensAt (offset + width tile.text) rest

theorem eq_gap_of_kind? {tile : Tile} (h : tile.kind? = none) : ∃ g, tile = .gap g := by
  cases tile with
  | gap g => exact ⟨g, rfl⟩
  | _ => exact absurd h (by simp [Tile.kind?])

theorem isLayout_of_mem_gap {g : Gap} {c : Char} (h : c ∈ g.val) : isLayout c = true := by
  have hspace := List.all_eq_true.mp g.property c h
  simpa [isSpace, isLayout, isBlank, isBreak, or_assoc] using hspace

theorem textOf_cons (tile : Tile) (rest : List Tile) :
    textOf (tile :: rest) = tile.text ++ textOf rest := List.flatMap_cons

theorem isSpaced_of_cons {tile : Tile} {rest : List Tile} (h : isSpaced (tile :: rest) = true) :
    isSpaced rest = true := by
  cases tile with
  | colon => exact (Bool.and_eq_true _ _ |>.mp h).2
  | _ => exact h

/-- Behind a spaced colon, a key has ended. -/
theorem endsKey_of_isSpaced {rest : List Tile} (h : isSpaced (.colon :: rest) = true) :
    Scanner.endsKey true (textOf rest) = true := by
  have hhead := (Bool.and_eq_true _ _ |>.mp h).1
  cases htext : textOf rest with
  | nil => rfl
  | cons c tail =>
    rw [htext] at hhead
    simp only [List.head?_cons, Option.any_some, Bool.or_eq_true, isSpace, beq_iff_eq] at hhead
    rcases hhead with ((((rfl | rfl) | rfl) | rfl) | rfl) | rfl <;> rfl

end Json

namespace Scanner

open Json

variable {s : State} {c : Char}

theorem plainLength_layout_append {inFlow : Bool} {layout rest : Text}
    (h : ∀ c ∈ layout, isLayout c = true) (hrest : ∀ previous, plainLength inFlow previous rest = 0)
    (previous : Char) : plainLength inFlow previous (layout ++ rest) = 0 := by
  induction layout generalizing previous with
  | nil => exact hrest previous
  | cons c layout ih =>
    have hbehind := ih (fun d hd => h d (List.mem_cons_of_mem c hd)) c
    rw [List.cons_append, plainLength, hbehind]
    rcases Bool.or_eq_true _ _ |>.mp (h c List.mem_cons_self) with hblank | hbreak
    · simp [hblank]
    · simp [stopsPlain, hbreak]

/-- At the end of an entry a plain scalar has nothing more to take. -/
theorem plainLength_of_endsEntry {flow : List Bracket} {tiles : List Tile} (hends : EndsEntry tiles)
    (hlegal : Legal flow tiles) (previous : Char) :
    plainLength (!flow.isEmpty) previous (textOf tiles) = 0 := by
  induction tiles generalizing previous with
  | nil => rfl
  | cons tile rest ih =>
    cases tile with
    | gap g =>
      exact plainLength_layout_append (fun c hc => isLayout_of_mem_gap hc) (ih hends hlegal) previous
    | comma =>
      have hflow : flow.isEmpty = false := by simpa using hlegal.1
      simp [textOf_cons, Tile.text, plainLength, stopsPlain, hflow, isFlowIndicator]
    | closing bracket =>
      obtain ⟨outer, rfl, -⟩ := hlegal
      cases bracket <;>
        simp [textOf_cons, Tile.text, plainLength, stopsPlain, isFlowIndicator, Bracket.closing]
    | opening bracket => exact absurd hends id
    | colon => exact absurd hends id
    | literal l => exact absurd hends id

/-- A token that is read whole is in front of what is read behind it. -/
theorem exists_run_token {kind : TokenKind} {tail rest : Text}
    (h : lexeme s c (tail ++ rest) = .ok (.token kind tail.length)) :
    ∃ next : State, next.pos = s.pos + width (c :: tail) ∧ next.flow = (s.track kind).flow ∧
      run s (c :: (tail ++ rest)) =
        ⟨⟨kind, s.pos, s.pos + width (c :: tail)⟩ :: (run next rest).tokens, (run next rest).error⟩ := by
  refine ⟨s.after (.token kind tail.length) (c :: tail) rest, after_pos .., after_token_flow .., ?_⟩
  rw [run, h]
  simp only [Lexeme.length, List.take_left, List.drop_left]
  rw [consToken, after_pos]

/-- **A tile that is no gap is read as one token**, and what is behind it is legal again. -/
theorem exists_lexeme_tile {tile : Tile} {rest : List Tile} {kind : TokenKind}
    (hkind : tile.kind? = some kind) (hlegal : Legal (s.flow.map Prod.fst) (tile :: rest))
    (hspaced : isSpaced (tile :: rest) = true) :
    (∃ c tail, tile.text = c :: tail ∧
      lexeme s c (tail ++ textOf rest) = .ok (.token kind tail.length)) ∧
    Legal ((s.track kind).flow.map Prod.fst) rest := by
  have hinFlow : s.inFlow = !(s.flow.map Prod.fst).isEmpty := by
    rw [State.inFlow, List.isEmpty_map]
  cases tile with
  | gap g => exact absurd hkind (by simp [Tile.kind?])
  | opening bracket =>
    obtain rfl := Option.some.inj hkind
    refine ⟨⟨bracket.opening, [], rfl, ?_⟩, ?_⟩
    · rw [lexeme_eq_read, shapeAt_opening]
      rfl
    · cases bracket <;> exact hlegal
  | closing bracket =>
    obtain rfl := Option.some.inj hkind
    obtain ⟨outer, hflow, houter⟩ := hlegal
    obtain ⟨⟨opened, offset⟩, others, hopen, hopened, rfl⟩ := List.map_eq_cons_iff.mp hflow
    have hmatch : opened = bracket := hopened
    refine ⟨⟨bracket.closing, [], rfl, ?_⟩, ?_⟩
    · rw [lexeme_eq_read, shapeAt_closing, Shape.read, closeFlow, hopen]
      exact if_pos hmatch
    · have htail : (s.track bracket.closeKind).flow = s.flow.tail := by cases bracket <;> rfl
      rw [htail, hopen]
      exact houter
  | comma =>
    obtain rfl := Option.some.inj hkind
    have hflow : s.inFlow = true := by simpa [hinFlow] using hlegal.1
    refine ⟨⟨',', [], rfl, ?_⟩, hlegal.2⟩
    rw [lexeme_eq_read, shapeAt_comma hflow]
    rfl
  | colon =>
    obtain rfl := Option.some.inj hkind
    have hflow : s.inFlow = true := by simpa [hinFlow] using hlegal.1
    refine ⟨⟨':', [], rfl, ?_⟩, hlegal.2⟩
    rw [lexeme_eq_read, shapeAt_colon]
    · rfl
    · rw [hflow]
      exact endsKey_of_isSpaced hspaced
  | literal l =>
    obtain rfl := Option.some.inj hkind
    refine ⟨exists_lexeme_literal s l fun hbare => ?_, hlegal.2⟩
    rw [hinFlow]
    exact plainLength_of_endsEntry (hlegal.1 hbare) hlegal.2

/-- **Legal tiles are read without a fault**, and each that is no gap is a token in its place. -/
theorem run_textOf {tiles : List Tile} (hlegal : Legal (s.flow.map Prod.fst) tiles)
    (hspaced : isSpaced tiles = true) : run s (textOf tiles) = ⟨tokensAt s.pos tiles, none⟩ := by
  induction tiles generalizing s with
  | nil =>
    have hflow : s.flow = [] := List.map_eq_nil_iff.mp hlegal
    rw [textOf, List.flatMap_nil, run, endError, hflow]
    rfl
  | cons tile rest ih =>
    have hspaced' := isSpaced_of_cons hspaced
    rw [textOf_cons]
    cases hkind : tile.kind? with
    | none =>
      obtain ⟨g, rfl⟩ := eq_gap_of_kind? hkind
      have hlayout : ∀ c ∈ (Tile.gap g).text, isLayout c = true := fun c hc => isLayout_of_mem_gap hc
      obtain ⟨next, hpos, hflow, hrun⟩ := exists_run_layout_append hlayout s (textOf rest)
      have hlegal' : Legal (next.flow.map Prod.fst) rest := by
        rw [hflow]
        exact hlegal
      rw [tokensAt, hkind, ← hpos]
      exact hrun.trans (ih hlegal' hspaced')
    | some kind =>
      obtain ⟨⟨c, tail, htext, hlexeme⟩, hlegal'⟩ := exists_lexeme_tile hkind hlegal hspaced
      obtain ⟨next, hpos, hflow, hrun⟩ := exists_run_token hlexeme
      rw [← hflow] at hlegal'
      rw [htext, List.cons_append, hrun, ih hlegal' hspaced', tokensAt, hkind, htext, hpos]
      rfl

end Scanner

/-- The tokens of the tiles cover the texts of the tiles. -/
theorem Json.map_tokensAt (front : Text) (tiles : List Tile) :
    (tokensAt (width front) tiles).map
        (fun t => (t.kind, slice? (front ++ textOf tiles) t.start t.stop)) =
      (piecesOf tiles).map fun piece => (piece.1, some piece.2) := by
  induction tiles generalizing front with
  | nil => rfl
  | cons tile rest ih =>
    have hrest := ih (front ++ tile.text)
    rw [width_append, List.append_assoc, ← textOf_cons] at hrest
    rw [tokensAt, List.map_append, hrest, piecesOf, piecesOf]
    cases hkind : tile.kind? with
    | none => simp [hkind]
    | some kind => simp [hkind, textOf_cons, slice?_width]

/-- **The scanner accepts JSON**: a document in which every colon is followed by a blank or by a bracket
has no fault, and its tokens are its structure. -/
theorem yamlScanner_json (d : Json.Document) (h : d.isSpaced = true) :
    (yamlScanner d.text).error = none ∧
      (yamlScanner d.text).tokens.map (fun t => (t.kind, slice? d.text t.start t.stop)) =
        d.pieces.map fun piece => (piece.1, some piece.2) := by
  have hrun : yamlScanner d.text = ⟨Json.tokensAt 0 d.tiles, none⟩ :=
    Scanner.run_textOf d.legal h
  rw [hrun]
  exact ⟨rfl, Json.map_tokensAt [] d.tiles⟩

/-- A document with a comment mark, a bracket and a colon in a name, escapes, a numeral that has every
part, an empty collection right behind a colon, and line endings of two kinds. -/
def Json.crowded : Document where
  before := ⟨['\n'], by decide⟩
  node := .filled .curly
    (.more ⟨[], by decide⟩
      (.member [.plain '#' (by decide), .plain ']' (by decide), .plain ':' (by decide)]
        ⟨[], by decide⟩ ⟨[' '], by decide⟩
        (.filled .square
          (.more ⟨[], by decide⟩
            (.item (.literal (.number ⟨true, ⟨⟨'1', by decide⟩, []⟩, some ⟨⟨'5', by decide⟩, []⟩,
              some ⟨true, some .plus, ⟨⟨'0', by decide⟩, [⟨'3', by decide⟩]⟩⟩, by decide⟩)))
            ⟨['\t'], by decide⟩
            (.last ⟨['\r', '\n'], by decide⟩
              (.item (.literal (.string [.short '"' (by decide),
                .code ⟨'0', by decide⟩ ⟨'0', by decide⟩ ⟨'e', by decide⟩ ⟨'9', by decide⟩])))
              ⟨[], by decide⟩))))
      ⟨[], by decide⟩
      (.last ⟨['\n'], by decide⟩
        (.member [] ⟨['\t'], by decide⟩ ⟨[], by decide⟩ (.empty .square ⟨[' '], by decide⟩))
        ⟨['\n'], by decide⟩))
  after := ⟨['\n'], by decide⟩

theorem yamlScanner_json_crowded :
    Json.crowded.text =
      "\n\x7b\"#]:\": [-1.5E+03\t,\r\n\"\\\"\\u00e9\"],\n\"\"\t:[ ]\n\x7d\n".toList ∧
    Json.crowded.isSpaced = true ∧ (yamlScanner Json.crowded.text).error = none ∧
    (yamlScanner Json.crowded.text).tokens.map
        (fun t => (t.kind, slice? Json.crowded.text t.start t.stop)) =
      [(.flowMappingStart, some ['\x7b']), (.scalar, some "\"#]:\"".toList), (.value, some [':']),
        (.flowSequenceStart, some ['[']), (.scalar, some "-1.5E+03".toList), (.flowEntry, some [',']),
        (.scalar, some "\"\\\"\\u00e9\"".toList), (.flowSequenceEnd, some [']']),
        (.flowEntry, some [',']), (.scalar, some "\"\"".toList), (.value, some [':']),
        (.flowSequenceStart, some ['[']), (.flowSequenceEnd, some [']']),
        (.flowMappingEnd, some ['\x7d'])] := by
  have hspaced : Json.crowded.isSpaced = true := by decide
  obtain ⟨herror, htokens⟩ := yamlScanner_json Json.crowded hspaced
  exact ⟨by decide, hspaced, herror, htokens.trans (by decide)⟩

end YamlStyle
