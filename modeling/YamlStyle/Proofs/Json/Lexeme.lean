import YamlStyle.Proofs.Json.Syntax
import YamlStyle.Proofs.Scanner.Quoted
import YamlStyle.Proofs.Scanner.Tiling

/-!
# How the scanner reads the tokens of JSON

Each token of JSON, met by the scanner at any place of a document, is read as one token of YAML and no
further than it goes. For brackets, commas and colons that is a matter of the first character and of
the open collections, for strings a matter of where the closing quote is. A number, `true`, `false` and
`null` have no end of their own: they are plain scalars, and they end where they do because of what
comes **after** them, so that has to be part of what is said about them.
-/

set_option autoImplicit false

namespace YamlStyle

/-- Whether a literal has no quotes that end it. -/
def Json.Literal.isBare : Json.Literal → Bool
  | .string _ => false
  | _ => true

namespace Scanner

variable {s : State} {c : Char} {rest : Text}

/-! ## Which shape starts at a character -/

theorem shapeAt_opening (bracket : Bracket) :
    shapeAt s bracket.opening rest = .indicator bracket.openKind := by
  cases bracket <;>
    simp [shapeAt, isBlank, isBreak, isMarker_of_ne, Bracket.opening, Bracket.ofOpening?]

theorem shapeAt_closing (bracket : Bracket) : shapeAt s bracket.closing rest = .closing bracket := by
  cases bracket <;>
    simp [shapeAt, isBlank, isBreak, isMarker_of_ne, Bracket.closing, Bracket.ofOpening?,
      Bracket.ofClosing?]

theorem shapeAt_comma (h : s.inFlow = true) : shapeAt s ',' rest = .indicator .flowEntry := by
  simp [shapeAt, isBlank, isBreak, isMarker_of_ne, Bracket.ofOpening?, Bracket.ofClosing?, h]

theorem shapeAt_colon (h : endsKey s.inFlow rest = true) : shapeAt s ':' rest = .indicator .value := by
  simp [shapeAt, isBlank, isBreak, isMarker_of_ne, h]

/-- The characters that may start something other than a plain scalar. -/
def isIndicator (c : Char) : Bool :=
  isLayout c || "#-.%?:[]\x7b\x7d,&*!'\"|>".toList.contains c

theorem shapeAt_of_not_isIndicator (h : isIndicator c = false) : shapeAt s c rest = .plain := by
  simp only [isIndicator, isLayout, String.reduceToList, List.contains_eq_mem, List.mem_cons,
    List.not_mem_nil, or_false, Bool.decide_or, Bool.or_eq_false_iff, decide_eq_false_iff_not] at h
  simp [shapeAt, isMarker_of_ne, Bracket.ofOpening?, Bracket.ofClosing?, Quote.ofChar?, h]

theorem ne_of_isDigit {d x : Char} (h : d.isDigit = true) (hx : x.isDigit = false) : d ≠ x := by
  rintro rfl
  rw [h] at hx
  exact absurd hx (by simp)

theorem isIndicator_of_isDigit {d : Char} (h : d.isDigit = true) : isIndicator d = false := by
  simp [isIndicator, isLayout, isBlank, isBreak, ne_of_isDigit h]

/-- A minus in front of a digit is no indicator, nor the start of a document marker. -/
theorem shapeAt_minus {d : Char} (h : d.isDigit = true) : shapeAt s '-' (d :: rest) = .plain := by
  have hseparated : isSeparated (d :: rest) = false := by
    simp [isSeparated, isBlank, isBreak, ne_of_isDigit h]
  have hmarker : isMarker '-' '-' (d :: rest) = false := by
    cases rest <;> simp [isMarker, ne_of_isDigit h]
  simp [shapeAt, isBlank, isBreak, isMarker_of_ne, Bracket.ofOpening?, Bracket.ofClosing?,
    Quote.ofChar?, hmarker, hseparated]

/-! ## How far a shape reaches -/

/-- The characters that never end a plain scalar, and never are at its edge. -/
def isSolid (c : Char) : Bool := !(isLayout c || c == ':' || c == '#' || isFlowIndicator c)

theorem plainLength_of_isSolid {inFlow : Bool} {word : Text} (hword : word.all isSolid = true)
    (hrest : ∀ previous, plainLength inFlow previous rest = 0) (previous : Char) :
    plainLength inFlow previous (word ++ rest) = word.length := by
  induction word generalizing previous with
  | nil => exact hrest previous
  | cons d word ih =>
    rw [List.all_cons, Bool.and_eq_true] at hword
    obtain ⟨hd, htail⟩ := hword
    have hword' := ih htail d
    simp only [isSolid, isLayout, Bool.not_or, Bool.and_eq_true, Bool.not_eq_true',
      beq_eq_false_iff_ne] at hd
    have hstop : stopsPlain inFlow previous d (word ++ rest) = false := by
      simp [stopsPlain, hd]
    rw [List.cons_append, plainLength, hstop, hword']
    cases word with
    | nil => simp [hd]
    | cons e word => rfl

theorem doubleQuotedLength?_unit (unit : Json.StringUnit) (rest : Text) :
    doubleQuotedLength? (unit.text ++ rest) =
      (doubleQuotedLength? rest).map (· + unit.text.length) := by
  cases unit with
  | plain c h => exact doubleQuotedLength?_other h.2.2 h.2.1 rest
  | short c h => rfl
  | code first second third fourth =>
    have hother : ∀ (d : Json.HexDigit) (rest : Text),
        doubleQuotedLength? (d.val :: rest) = (doubleQuotedLength? rest).map (· + 1) := by
      intro d rest
      have hd := d.property
      refine doubleQuotedLength?_other ?_ ?_ rest
      · intro hescape
        rw [hescape] at hd
        exact absurd hd (by decide)
      · intro hquote
        rw [hquote] at hd
        exact absurd hd (by decide)
    show (doubleQuotedLength? (first.val :: second.val :: third.val :: fourth.val :: rest)).map _ = _
    rw [hother, hother, hother, hother]
    simp only [Option.map_map]
    rfl

theorem doubleQuotedLength?_units (units : List Json.StringUnit) (rest : Text) :
    doubleQuotedLength? (units.flatMap Json.StringUnit.text ++ '"' :: rest) =
      some ((units.flatMap Json.StringUnit.text).length + 1) := by
  induction units with
  | nil => rfl
  | cons unit units ih =>
    rw [List.flatMap_cons, List.append_assoc, doubleQuotedLength?_unit, ih, Option.map_some,
      List.length_append]
    congr 1
    omega

/-! ## Literals -/

theorem isSolid_of_isDigit {d : Char} (h : d.isDigit = true) : isSolid d = true := by
  simp [isSolid, isLayout, isBlank, isBreak, isFlowIndicator, ne_of_isDigit h]

theorem isDigit_of_mem_digits {digits : Json.Digits} (h : c ∈ digits.text) : c.isDigit = true := by
  rcases List.mem_cons.mp h with rfl | h
  · exact digits.first.property
  · obtain ⟨d, -, rfl⟩ := List.mem_map.mp h
    exact d.property

/-- A character of a part that may be left out is there because the part is. -/
theorem exists_of_mem_getD {α : Type} {part : Option α} {text : α → Text}
    (h : c ∈ (part.map text).getD []) : ∃ a, c ∈ text a := by
  cases part with
  | none => exact absurd h List.not_mem_nil
  | some a => exact ⟨a, h⟩

theorem isSolid_of_mem_exponent {e : Json.Exponent} (h : c ∈ e.text) : isSolid c = true := by
  rcases List.mem_cons.mp h with rfl | h
  · cases e.capital <;> decide
  · rcases List.mem_append.mp h with h | h
    · obtain ⟨sign, hsign⟩ := exists_of_mem_getD h
      cases sign <;> (rw [List.mem_singleton.mp hsign]; decide)
    · exact isSolid_of_isDigit (isDigit_of_mem_digits h)

theorem isSolid_of_mem_numeral {n : Json.Numeral} (h : c ∈ n.text) : isSolid c = true := by
  simp only [Json.Numeral.text, List.mem_append] at h
  rcases h with ((h | h) | h) | h
  · split at h
    · rw [List.mem_singleton.mp h]
      decide
    · exact absurd h List.not_mem_nil
  · exact isSolid_of_isDigit (isDigit_of_mem_digits h)
  · obtain ⟨digits, hdigits⟩ := exists_of_mem_getD h
    rcases List.mem_cons.mp hdigits with rfl | hdigits
    · decide
    · exact isSolid_of_isDigit (isDigit_of_mem_digits hdigits)
  · obtain ⟨e, he⟩ := exists_of_mem_getD h
    exact isSolid_of_mem_exponent he

/-- A numeral starts with a digit, or with a minus and a digit. -/
theorem exists_numeral_text (n : Json.Numeral) :
    ∃ d tail, d.isDigit = true ∧ (n.text = d :: tail ∨ n.text = '-' :: d :: tail) := by
  rw [Json.Numeral.text, Json.Digits.text]
  cases n.negative with
  | false => exact ⟨_, _, n.whole.first.property, Or.inl rfl⟩
  | true => exact ⟨_, _, n.whole.first.property, Or.inr rfl⟩

/-- A word that starts a plain scalar and is all of it. -/
theorem lexeme_of_isSolid {word : Text} (hshape : shapeAt s c (word ++ rest) = .plain)
    (hword : word.all isSolid = true)
    (hrest : ∀ previous, plainLength s.inFlow previous rest = 0) :
    lexeme s c (word ++ rest) = .ok (.token .scalar word.length) := by
  rw [lexeme_eq_read, hshape, Shape.read, plainLength_of_isSolid hword hrest]

/-- **A literal is read as one scalar.** Without quotes around it, what follows has to end it. -/
theorem exists_lexeme_literal (s : State) (l : Json.Literal) {rest : Text}
    (hrest : l.isBare = true → ∀ previous, plainLength s.inFlow previous rest = 0) :
    ∃ c tail, l.text = c :: tail ∧ lexeme s c (tail ++ rest) = .ok (.token .scalar tail.length) := by
  have hplain : l.isBare = true → ∀ c tail, isIndicator c = false → tail.all isSolid = true →
      lexeme s c (tail ++ rest) = .ok (.token .scalar tail.length) :=
    fun hbare c tail hc htail =>
      lexeme_of_isSolid (shapeAt_of_not_isIndicator hc) htail (hrest hbare)
  cases l with
  | string units =>
    have hlength : quotedLength? .double (units.flatMap Json.StringUnit.text ++ '"' :: rest) = _ :=
      doubleQuotedLength?_units units rest
    refine ⟨'"', _, rfl, ?_⟩
    rw [lexeme_eq_read, show shapeAt s '"' _ = _ from shapeAt_quote s .double _, List.append_assoc]
    show quotedScalar .double (_ ++ '"' :: rest) = _
    rw [quotedScalar, hlength, List.length_append]
    rfl
  | number n =>
    have hsolid : ∀ {c : Char} {tail : Text}, n.text = c :: tail → tail.all isSolid = true := by
      intro c tail htext
      refine List.all_eq_true.mpr fun d hd => ?_
      exact isSolid_of_mem_numeral (by rw [htext]; exact List.mem_cons_of_mem c hd)
    obtain ⟨d, tail, hd, htext | htext⟩ := exists_numeral_text n
    · exact ⟨d, tail, htext, hplain rfl d tail (isIndicator_of_isDigit hd) (hsolid htext)⟩
    · -- The minus is an indicator, but not in front of a digit.
      exact ⟨'-', d :: tail, htext,
        lexeme_of_isSolid (shapeAt_minus hd) (hsolid htext) (hrest rfl)⟩
  | bool b =>
    cases b with
    | true => exact ⟨'t', _, rfl, hplain rfl 't' _ (by decide) (by decide)⟩
    | false => exact ⟨'f', _, rfl, hplain rfl 'f' _ (by decide) (by decide)⟩
  | null => exact ⟨'n', _, rfl, hplain rfl 'n' _ (by decide) (by decide)⟩

end Scanner

end YamlStyle
