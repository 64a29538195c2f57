import YamlStyle.Proofs.Cursor.Reads

/-!
# The walks of a cursor

Three reads go through the bytes on their own. The search for a closing quote may step into the middle of a
character, behind an escape, and comes out of it again because no byte there is a quote. The walk through
the body of a block scalar goes from line to line, and may be far behind the end of the scalar when it
stops. The walk through a plain scalar goes from byte to byte and looks back for blanks. Each of them comes
to where the scanner comes to that counts characters (`quotedEnd?_bytes`, `bodyEnd?_bytes`,
`plainEnd?_bytes`).
-/

set_option autoImplicit false

namespace YamlStyle

namespace Scanner

/-! ## Quoted scalars -/

theorem quotedEnd?_cons (quote : Quote) (front back : List UInt8) (b : UInt8) :
    quotedEnd? (front ++ b :: back) quote front.length =
      if b = escapeByte ∧ quote = .double then
        quotedEnd? (front ++ b :: back) quote (front.length + 2)
      else if b = quote.byte ∧ quote = .single ∧ back.head? = some quote.byte then
        quotedEnd? (front ++ b :: back) quote (front.length + 2)
      else if b = quote.byte then some (some (front.length + 1))
      else quotedEnd? (front ++ b :: back) quote (front.length + 1) := by
  have hlt : front.length < (front ++ b :: back).length := by simp
  have hhere : (front ++ b :: back)[front.length]? = some b := by simp
  have hnext : (front ++ b :: back)[front.length + 1]? = back.head? := by
    rw [List.getElem?_append_right (by omega), Nat.add_sub_cancel_left, List.getElem?_cons_succ,
      List.head?_eq_getElem?]
  rw [quotedEnd?, if_pos hlt, hhere, hnext]
  rfl

/-- Bytes that stand for themselves are stepped over. -/
theorem quotedEnd?_bare {quote : Quote} {bare : List UInt8} (hbare : ∀ b ∈ bare, quote.Bare b)
    (front back : List UInt8) :
    quotedEnd? (front ++ (bare ++ back)) quote front.length =
      quotedEnd? (front ++ (bare ++ back)) quote (front.length + bare.length) := by
  induction bare generalizing front with
  | nil => rfl
  | cons b bare ih =>
    obtain ⟨hquote, hescape⟩ := hbare b List.mem_cons_self
    have hrest := ih (fun b hb => hbare b (List.mem_cons_of_mem _ hb)) (front ++ [b])
    rw [List.append_assoc, List.length_append, List.length_singleton] at hrest
    rw [List.cons_append, quotedEnd?_cons, if_neg fun h => hescape h.2 h.1, if_neg fun h => hquote h.1,
      if_neg hquote, List.length_cons, Nat.add_comm bare.length, ← Nat.add_assoc]
    exact hrest

/-- What was found behind `piece` is counted together with it. -/
theorem map_width_take (found : Option Nat) (front piece rest : Text) :
    (found.map (· + piece.length)).map (fun n => width front + width ((piece ++ rest).take n)) =
      found.map fun n => width (front ++ piece) + width (rest.take n) := by
  rw [Option.map_map]
  congr 1
  funext n
  show width front + width ((piece ++ rest).take (n + piece.length)) = _
  rw [Nat.add_comm n, List.take_length_add_append, width_append, width_append, Nat.add_assoc]

theorem quotedEnd?_nil (quote : Quote) (front : Text) :
    quotedEnd? (bytes (front ++ [])) quote (width front) = some none := by
  rw [quotedEnd?, if_neg (by simp)]

/-- A character that is no quote and no escape is stepped over. -/
theorem quotedEnd?_other {quote : Quote} {c : Char} (hquote : c ≠ quote.char)
    (hescape : quote = .double → c ≠ '\\') (front rest : Text) :
    quotedEnd? (bytes (front ++ c :: rest)) quote (width front) =
      quotedEnd? (bytes ((front ++ [c]) ++ rest)) quote (width (front ++ [c])) := by
  have hbare := quotedEnd?_bare (Quote.bare_of_mem hquote hescape) (bytes front) (bytes rest)
  rw [← bytes_cons, ← bytes_append, length_bytes, String.length_utf8EncodeChar] at hbare
  rw [hbare, List.append_assoc, List.singleton_append, width_append, width_cons, width_nil, Nat.add_zero]

theorem head?_bytes_eq_iff (quote : Quote) (rest : Text) :
    (bytes rest).head? = some quote.byte ↔ rest.head? = some quote.char := by
  constructor
  · intro hhead
    by_contra hne
    exact Quote.head?_bytes_ne hne hhead
  · intro hhead
    obtain ⟨tail, rfl⟩ := List.head?_eq_some_iff.mp hhead
    rw [Quote.bytes_char_cons]
    rfl

/-- A quote ends the scalar, unless it is a single one with another behind it. -/
theorem quotedEnd?_quote (quote : Quote) (front rest : Text) :
    quotedEnd? (bytes (front ++ quote.char :: rest)) quote (width front) =
      if quote = .single ∧ rest.head? = some quote.char then
        quotedEnd? (bytes (front ++ quote.char :: rest)) quote (width front + 2)
      else some (some (width front + 1)) := by
  have hstep := quotedEnd?_cons quote (bytes front) (bytes rest) quote.byte
  rw [← Quote.bytes_char_cons, ← bytes_append, length_bytes,
    if_neg fun h => quote.byte_ne_escapeByte h.1, if_pos (rfl : quote.byte = quote.byte)] at hstep
  simpa only [true_and, head?_bytes_eq_iff] using hstep

theorem quotedEnd?_single (front rest : Text) :
    quotedEnd? (bytes (front ++ rest)) .single (width front) =
      some ((singleQuotedLength? rest).map fun n => width front + width (rest.take n)) := by
  fun_induction singleQuotedLength? rest generalizing front with
  | case1 => exact quotedEnd?_nil .single front
  | case2 rest ih =>
    have hrest := ih (front ++ ['\'', '\''])
    rw [List.append_assoc] at hrest
    refine (quotedEnd?_quote .single front ('\'' :: rest)).trans ?_
    rw [if_pos ⟨rfl, rfl⟩]
    refine Eq.trans ?_ (hrest.trans ?_)
    · rw [width_append]
      rfl
    · rw [← map_width_take]
      rfl
  | case3 rest hne =>
    refine (quotedEnd?_quote .single front rest).trans ?_
    rw [if_neg]
    · rfl
    · rintro ⟨-, hhead⟩
      obtain ⟨tail, rfl⟩ := List.head?_eq_some_iff.mp hhead
      exact hne tail rfl
  | case4 c rest _ hquote ih =>
    rw [quotedEnd?_other hquote (by simp), ih, ← map_width_take]
    rfl

theorem quotedEnd?_escape (front rest : Text) :
    quotedEnd? (bytes (front ++ '\\' :: rest)) .double (width front) =
      quotedEnd? (bytes (front ++ '\\' :: rest)) .double (width front + 2) := by
  have hbytes : bytes ('\\' :: rest) = escapeByte :: bytes rest := bytes_cons ..
  have hstep := quotedEnd?_cons .double (bytes front) (bytes rest) escapeByte
  rwa [if_pos ⟨rfl, rfl⟩, ← hbytes, ← bytes_append, length_bytes] at hstep

/-- An escape takes one byte along. What is left of the character is stepped over. -/
theorem quotedEnd?_escaped (front rest : Text) (d : Char) :
    quotedEnd? (bytes (front ++ '\\' :: d :: rest)) .double (width front + 2) =
      quotedEnd? (bytes ((front ++ ['\\', d]) ++ rest)) .double (width (front ++ ['\\', d])) := by
  obtain ⟨b, bare, hencode, hbare⟩ : ∃ b bare, String.utf8EncodeChar d = b :: bare ∧
      ∀ b ∈ bare, Quote.double.Bare b :=
    ⟨_, _, utf8EncodeChar_eq d, fun b hb => Quote.bare_of_le (le_of_mem_continuation hb)⟩
  have hbytes : bytes ((front ++ ['\\', d]) ++ rest) =
      (bytes front ++ [escapeByte, b]) ++ (bare ++ bytes rest) := by
    have hescape : bytes ['\\', d] = escapeByte :: (b :: bare ++ []) := by
      rw [← hencode]
      rfl
    rw [bytes_append, bytes_append, hescape]
    simp
  have hwidth : width (front ++ ['\\', d]) = (bytes front ++ [escapeByte, b]).length + bare.length := by
    have hsize : d.utf8Size = bare.length + 1 := by
      rw [← String.length_utf8EncodeChar, hencode]
      rfl
    rw [width_append, width_cons, width_cons, hsize, List.length_append, length_bytes]
    show width front + (1 + (bare.length + 1 + 0)) = width front + 2 + bare.length
    omega
  have hskip := quotedEnd?_bare hbare (bytes front ++ [escapeByte, b]) (bytes rest)
  rw [← hwidth, ← hbytes, List.length_append, length_bytes] at hskip
  rw [← hskip, List.append_assoc]
  rfl

theorem quotedEnd?_double (front rest : Text) :
    quotedEnd? (bytes (front ++ rest)) .double (width front) =
      some ((doubleQuotedLength? rest).map fun n => width front + width (rest.take n)) := by
  fun_induction doubleQuotedLength? rest generalizing front with
  | case1 => exact quotedEnd?_nil .double front
  | case2 =>
    -- The escape takes a byte along that is not there, and the search is over.
    have hover : ¬ width front + 2 < (bytes (front ++ ['\\'])).length := by
      rw [length_bytes, width_append]
      show ¬ width front + 2 < width front + 1
      omega
    rw [quotedEnd?_escape, quotedEnd?, if_neg hover]
    rfl
  | case3 d rest ih =>
    rw [quotedEnd?_escape, quotedEnd?_escaped, ih, ← map_width_take]
    rfl
  | case4 rest =>
    refine (quotedEnd?_quote .double front rest).trans ?_
    rw [if_neg (by simp)]
    rfl
  | case5 c rest h₁ h₂ hquote ih =>
    have hescape := ne_escape h₁ h₂
    rw [quotedEnd?_other hquote fun _ => hescape, ih, ← map_width_take]
    rfl

/-- **The search for the closing quote finds it**, if there is one, and does not get lost if there is
none. -/
theorem quotedEnd?_bytes (quote : Quote) (front rest : Text) :
    quotedEnd? (bytes (front ++ rest)) quote (width front) =
      some ((quotedLength? quote rest).map fun n => width front + width (rest.take n)) := by
  cases quote with
  | single => exact quotedEnd?_single front rest
  | double => exact quotedEnd?_double front rest

/-! ## Block scalars -/

/-- The offset where the line below starts. -/
theorem add_endingLength (front text : Text) :
    width front + width (lineContent text) +
        endingLength (bytes (front ++ text)) (width front + width (lineContent text)) =
      width (front ++ (lineContent text ++ (lineEnding text).text)) := by
  have hlength := endingLength_bytes (front ++ lineContent text) (lineRest text)
  rw [List.append_assoc, lineContent_append_lineRest, width_append] at hlength
  rw [hlength, width_append, width_append, Nat.add_assoc]
  rfl

theorem bodyEnd?_line (indent stop : Nat) (front : Text) {text : Text} (hne : text ≠ []) :
    bodyEnd? (bytes (front ++ text)) indent (width front) stop =
      if hollowFirst text then
        bodyEnd? (bytes (front ++ text)) indent
          (width (front ++ (lineContent text ++ (lineEnding text).text))) stop
      else if indent < leadingSpaces (lineContent text) then
        bodyEnd? (bytes (front ++ text)) indent
          (width (front ++ (lineContent text ++ (lineEnding text).text)))
          (width front + width (lineContent text))
      else some stop := by
  have hlt : width front < (bytes (front ++ text)).length := by
    have hpos := width_pos hne
    rw [length_bytes, width_append]
    omega
  have hcut := cut?_bytes front (lineContent text) (lineRest text)
  rw [lineContent_append_lineRest] at hcut
  have hend := lineEnd?_bytes front text
  have hhollow : leadingSpaces (lineContent text) = width (lineContent text) ↔
      hollowFirst text = true := by
    rw [leadingSpaces_eq_width_iff, hollowFirst, beq_iff_eq]
  rw [bodyEnd?, dif_pos hlt]
  split
  · rename_i hnone
    exact absurd (hend.symm.trans hnone) (by simp)
  · rename_i lineStop hstop
    obtain rfl := Option.some.inj (hend.symm.trans hstop)
    rw [hcut, add_endingLength]
    simp only [Option.bind_eq_bind, Option.bind_some, leadingSpaceBytes_bytes, length_bytes, hhollow]

/-- **The walk over the lines of a body** comes to the end of the last one that has something on it. -/
theorem bodyEnd?_bytes (indent number stop : Nat) (front before text : Text) :
    bodyEnd? (bytes (front ++ text)) indent (width front) stop =
      some (((filledLines indent (linesFrom number (width front) before text)).getLast?.map
        Line.stop).getD stop) := by
  induction text using line_induction generalizing number stop front before with
  | nil =>
    rw [bodyEnd?, dif_neg (by simp)]
    simp [linesFrom, filledLines]
  | line text hne ih =>
    have hbelow := fun stop => ih (number + 1) stop (front ++ (lineContent text ++ (lineEnding text).text))
      ((lineEnding text).text.reverse ++ ((lineContent text).reverse ++ before))
    simp only [List.append_assoc, line_append] at hbelow
    rw [bodyEnd?_line indent stop front hne, hbelow, hbelow, linesFrom_of_ne_nil _ _ _ hne,
      filledLines_cons, ← isHollow_eq, width_append, width_append, ← Nat.add_assoc]
    generalize filledLines indent (linesFrom (number + 1) _ _ (lineBelow text)) = filled
    show _ = some (((if hollowFirst text then filled else _).getLast?.map Line.stop).getD stop)
    split
    · rfl
    · split
      · rw [List.getLast?_cons]
        cases filled.getLast? <;> rfl
      · rfl

/-- The body below a header that begins with `c`. -/
theorem bodyEnd?_block (indent : Nat) (front rest : Text) {c : Char} (hc : isBreak c = false) :
    bodyEnd? (bytes (front ++ c :: rest)) indent
        (width (front ++ (lineContent (c :: rest) ++ (lineEnding (c :: rest)).text)))
        (width front + width (lineContent (c :: rest))) =
      some (width front + width (c :: rest.take (blockLength indent rest))) := by
  have hflat : ∀ d ∈ [c], isBreak d = false := by simpa using hc
  obtain ⟨hcontent, hending, hbelow⟩ := line_of_flat hflat rest
  rw [List.singleton_append] at hcontent hending hbelow
  rw [hcontent, hending, List.singleton_append]
  have hbody := bodyEnd?_bytes indent 1 (width front + width (c :: lineContent rest))
    (front ++ (c :: lineContent rest ++ (lineEnding rest).text)) [] (lineBelow rest)
  have hwidth := width_take_body indent (width front + width (c :: lineContent rest)) 1
    (lineEnding rest).text [] (lineBelow rest)
  rw [List.append_assoc, List.append_assoc, List.cons_append, line_append, width_append, width_append,
    ← Nat.add_assoc, ← hwidth] at hbody
  rw [width_append, width_append, ← Nat.add_assoc, hbody, take_block, ← List.cons_append, width_append,
    Nat.add_assoc]

/-! ## Plain scalars -/

theorem plainEnd?_step {bs : List UInt8} {start i : Nat} {b : UInt8} {hashed : Bool}
    (hb : bs[i]? = some b) (hhash : hash? bs start i (byteChar b) = some hashed) (inFlow : Bool)
    (stop : Nat) :
    plainEnd? bs inFlow start i stop =
      if isBreak (byteChar b) || (byteChar b == ':' && endsKeyAt bs inFlow (i + 1)) ||
          (inFlow && isFlowIndicator (byteChar b)) || hashed then some stop
      else plainEnd? bs inFlow start (i + 1) (if isBlank (byteChar b) then stop else i + 1) := by
  have hlt : i < bs.length := (List.getElem?_eq_some_iff.mp hb).1
  conv_lhs => rw [plainEnd?]
  rw [if_pos hlt, hb, Option.bind_eq_bind, Option.bind_some]
  dsimp only
  rw [hhash, Option.bind_eq_bind, Option.bind_some]
  cases hashed with
  | false => simp only [Bool.or_false, Bool.false_eq_true, if_false]
  | true => simp only [Bool.or_true, if_true, ite_self]

/-- No byte beyond ASCII stops a plain scalar. -/
theorem plainEnd?_of_le {bs : List UInt8} {i : Nat} {b : UInt8} (hb : bs[i]? = some b)
    (hle : 128 ≤ (byteChar b).toNat) (inFlow : Bool) (start stop : Nat) :
    plainEnd? bs inFlow start i stop = plainEnd? bs inFlow start (i + 1) (i + 1) := by
  have hhash : hash? bs start i (byteChar b) = some false := by
    rw [hash?, if_neg]
    rintro ⟨hsharp, -⟩
    rw [hsharp] at hle
    exact absurd hle (by decide)
  rw [plainEnd?_step hb hhash]
  simp [isBreak_of_le hle, beq_of_le hle, isFlowIndicator_of_le hle, isBlank_of_le hle]

theorem plainEnd?_high {high : List UInt8} (hhigh : ∀ b ∈ high, 128 ≤ (byteChar b).toNat)
    (front back : List UInt8) (inFlow : Bool) (start stop : Nat) (hne : high ≠ []) :
    plainEnd? (front ++ (high ++ back)) inFlow start front.length stop =
      plainEnd? (front ++ (high ++ back)) inFlow start (front.length + high.length)
        (front.length + high.length) := by
  induction high generalizing front stop with
  | nil => exact absurd rfl hne
  | cons b high ih =>
    have hb : (front ++ (b :: high ++ back))[front.length]? = some b := by simp
    rw [plainEnd?_of_le hb (hhigh b List.mem_cons_self)]
    by_cases hhigh' : high = []
    · rw [hhigh']
      rfl
    · have hrest := ih (fun b hb => hhigh b (List.mem_cons_of_mem _ hb)) (front ++ [b])
        (front.length + 1) hhigh'
      rw [List.append_assoc, List.length_append, List.length_singleton] at hrest
      rw [List.length_cons, Nat.add_comm high.length, ← Nat.add_assoc]
      exact hrest

/-- One character of the walk through a plain scalar. -/
theorem plainEnd?_cons {front rest : Text} {previous c : Char} {start : Nat}
    (hhash : hash? (bytes (front ++ c :: rest)) start (width front) c =
      some (c == '#' && isBlank previous)) (inFlow : Bool) (stop : Nat) :
    plainEnd? (bytes (front ++ c :: rest)) inFlow start (width front) stop =
      if stopsPlain inFlow previous c rest then some stop
      else plainEnd? (bytes (front ++ c :: rest)) inFlow start (width (front ++ [c]))
        (if isBlank c then stop else width (front ++ [c])) := by
  have hwidth : width (front ++ [c]) = width front + c.utf8Size := by
    rw [width_append, width_cons, width_nil, Nat.add_zero]
  by_cases hc : c.toNat < 128
  · obtain ⟨b, hencode, hchar⟩ := utf8EncodeChar_of_lt hc
    have hb : (bytes (front ++ c :: rest))[width front]? = some b := by
      rw [bytes_append, bytes_cons, hencode, ← length_bytes front]
      simp
    have hkey := endsKeyAt_bytes inFlow (front ++ [c]) rest
    rw [hwidth, utf8Size_of_lt hc, List.append_assoc, List.singleton_append] at hkey
    rw [plainEnd?_step hb (by rwa [hchar]), hchar, hkey, hwidth, utf8Size_of_lt hc]
    rfl
  · have hle := Nat.le_of_not_lt hc
    have hstops : stopsPlain inFlow previous c rest = false := by
      simp [stopsPlain, isBreak_of_le hle, beq_of_le hle, isFlowIndicator_of_le hle]
    have hhigh := plainEnd?_high (fun b hb => le_of_mem_utf8EncodeChar hle hb) (bytes front) (bytes rest)
      inFlow start stop (by rw [utf8EncodeChar_eq]; simp)
    rw [← bytes_cons, ← bytes_append, length_bytes, String.length_utf8EncodeChar] at hhigh
    rw [hstops, hhigh, isBlank_of_le hle, hwidth]
    rfl

theorem exists_before (front back : Text) (previous : Char) :
    ∃ b, before? (bytes (front ++ previous :: back)) (width (front ++ [previous])) = some b ∧
      Blurs (byteChar b) previous := by
  have hne : String.utf8EncodeChar previous ≠ [] := by
    rw [utf8EncodeChar_eq]
    simp
  obtain ⟨init, b, hencode⟩ : ∃ init b, String.utf8EncodeChar previous = init ++ [b] :=
    ⟨_, _, (List.dropLast_concat_getLast hne).symm⟩
  refine ⟨b, ?_, blurs_of_mem (by rw [hencode]; simp)⟩
  have hwidth : width (front ++ [previous]) = (bytes front ++ init).length + 1 := by
    rw [← length_bytes, bytes_append, bytes_cons, hencode]
    simp [bytes, Nat.add_assoc]
  have hbytes : bytes (front ++ previous :: back) = (bytes front ++ init) ++ b :: bytes back := by
    rw [bytes_append, bytes_cons, hencode]
    simp
  rw [hwidth, hbytes, before?]
  simp

theorem hash?_bytes (front rest : Text) (previous c : Char) {start : Nat} (hstart : start ≤ width front) :
    hash? (bytes ((front ++ [previous]) ++ c :: rest)) start (width (front ++ [previous])) c =
      some (c == '#' && isBlank previous) := by
  have hlt : start < width (front ++ [previous]) := by
    have hpos := previous.utf8Size_pos
    rw [width_append, width_cons]
    omega
  obtain ⟨b, hbefore, hblurs⟩ := exists_before front (c :: rest) previous
  rw [hash?, List.append_assoc, List.singleton_append, hbefore]
  by_cases hc : c = '#'
  · rw [if_pos ⟨hc, hlt⟩, Option.map_some, hblurs.eq coarse_isBlank, hc]
    rfl
  · rw [if_neg fun h => hc h.1, beq_eq_false_iff_ne.mpr hc, Bool.false_and]

/-- The walk behind the first character. -/
theorem plainEnd?_rest (inFlow : Bool) (front rest : Text) (previous : Char) {start : Nat}
    (hstart : start ≤ width front) (stop : Nat) :
    plainEnd? (bytes ((front ++ [previous]) ++ rest)) inFlow start (width (front ++ [previous])) stop =
      some (match plainLength inFlow previous rest with
        | 0 => stop
        | n + 1 => width (front ++ [previous]) + width (rest.take (n + 1))) := by
  induction rest generalizing front previous stop with
  | nil =>
    rw [plainEnd?, if_neg (by simp)]
    rfl
  | cons c rest ih =>
    have hnext : start ≤ width (front ++ [previous]) := by
      rw [width_append]
      omega
    rw [plainEnd?_cons (hash?_bytes front rest previous c hstart), plainLength]
    split
    · rfl
    · have hrest := ih (front ++ [previous]) c hnext
        (if isBlank c then stop else width (front ++ [previous] ++ [c]))
      rw [List.append_assoc, List.singleton_append] at hrest
      rw [hrest]
      cases plainLength inFlow c rest with
      | zero => cases isBlank c <;> simp [Nat.add_assoc]
      | succ n => simp [Nat.add_assoc]

/-- **The walk through a plain scalar** comes to its end. -/
theorem plainEnd?_bytes {s : State} {c : Char} {rest : Text} (h : shapeAt s c rest = .plain)
    (front : Text) :
    plainEnd? (bytes (front ++ c :: rest)) s.inFlow (width front) (width front) (width front) =
      some (width front + width (c :: rest.take (plainLength s.inFlow c rest))) := by
  obtain ⟨hblank, hstops⟩ := stopsPlain_of_plain h 'x'
  have hhash : hash? (bytes (front ++ c :: rest)) (width front) (width front) c =
      some (c == '#' && isBlank 'x') := by
    rw [hash?, if_neg fun h => Nat.lt_irrefl _ h.2, show isBlank 'x' = false from rfl, Bool.and_false]
  rw [plainEnd?_cons hhash, hstops, hblank]
  have hrest := plainEnd?_rest s.inFlow front rest c (Nat.le_refl _) (width (front ++ [c]))
  rw [List.append_assoc, List.singleton_append] at hrest
  refine hrest.trans ?_
  cases plainLength s.inFlow c rest with
  | zero => simp
  | succ n => simp [Nat.add_assoc]

/-! ## Breaks -/

theorem lastBreak?_append (front back : List UInt8) :
    lastBreak? (front ++ back) =
      match lastBreak? back with
      | some i => some (front.length + i)
      | none => lastBreak? front := by
  induction front with
  | nil =>
    rw [List.nil_append]
    cases lastBreak? back <;> simp [lastBreak?]
  | cons b front ih =>
    rw [List.cons_append, lastBreak?, ih]
    cases lastBreak? back with
    | none => rfl
    | some i => simp [Nat.add_right_comm]

theorem lastBreak?_eq_none {bs : List UInt8} (h : ∀ b ∈ bs, isBreak (byteChar b) = false) :
    lastBreak? bs = none := by
  induction bs with
  | nil => rfl
  | cons b bs ih =>
    rw [lastBreak?, ih fun b hb => h b (List.mem_cons_of_mem _ hb), h b List.mem_cons_self]
    rfl

theorem lastBreak?_encode (c : Char) :
    lastBreak? (String.utf8EncodeChar c) = if isBreak c then some 0 else none := by
  have hbytes : ∀ b ∈ String.utf8EncodeChar c, isBreak (byteChar b) = isBreak c :=
    fun b hb => (blurs_of_mem hb).eq coarse_isBreak
  cases hc : isBreak c with
  | false => exact lastBreak?_eq_none fun b hb => (hbytes b hb).trans hc
  | true =>
    obtain ⟨b, -, hencode⟩ := utf8EncodeChar_of_isLayout (c := c) (by simp [isLayout, hc])
    rw [hencode] at hbytes ⊢
    simp [lastBreak?, hbytes b List.mem_cons_self, hc]

/-- The last break of the bytes is the last break of the text. -/
theorem lastBreak?_bytes (text : Text) :
    (lastBreak? (bytes text)).map (· + 1) = (lastLine? text).map fun cut => width cut.1 := by
  induction text with
  | nil => rfl
  | cons c text ih =>
    rw [bytes_cons, lastBreak?_append, lastLine?, String.length_utf8EncodeChar]
    cases hlast : lastLine? text with
    | some cut =>
      rw [hlast] at ih
      obtain ⟨i, hi, hwidth⟩ := Option.map_eq_some_iff.mp ih
      rw [hi]
      show some (c.utf8Size + i + 1) = some (c.utf8Size + width cut.1)
      rw [Nat.add_assoc, hwidth]
    | none =>
      rw [hlast] at ih
      rw [Option.map_eq_none_iff.mp ih]
      dsimp only
      rw [lastBreak?_encode]
      split
      · rename_i hc
        show some 1 = some (c.utf8Size + 0)
        rw [utf8Size_of_isLayout (by simp [isLayout, hc])]
      · rfl

end Scanner

end YamlStyle
