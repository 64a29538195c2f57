import YamlStyle.Proofs.Scanner.Brackets
import YamlStyle.Proofs.Scanner.Comments
import YamlStyle.Proofs.Text.ByteOrder

/-!
# The grammar of quoted scalars

The scanner goes from character to character. The grammar of quoted scalars is one of bytes: between
two single quotes stand bytes that are no quotes and quotes that are doubled, between two double quotes
bytes that are neither quotes nor backslashes and backslashes with a byte behind each. The two agree
(`yamlScanner_quoted`), because the bytes of a quote or of a backslash are in the encoding of no other
character. That an escape takes a byte in the grammar and a character in the scanner is no difference
either: what is left of the character are bytes that stand for themselves.

The grammar leaves no choice. `Quote.Closes` says how a scalar goes on once its quote has been opened,
and for each way a text can begin it has one equation, the same as the search of the scanner.
-/

set_option autoImplicit false

namespace YamlStyle

/-! ## Bytes of characters -/

theorem le_of_mem_continuation {count v : Nat} {b : UInt8} (h : b ∈ continuation count v) :
    128 ≤ b.toNat := by
  induction count generalizing v with
  | zero => exact absurd h List.not_mem_nil
  | succ count ih =>
    rcases List.mem_append.mp h with h | h
    · exact ih h
    · rw [List.mem_singleton.mp h, UInt8.toNat_ofNat', Nat.mod_eq_of_lt (by omega)]
      omega

/-- An ASCII byte stands in the encoding of no character but its own. -/
theorem val_eq_of_mem_utf8EncodeChar {c : Char} {b : UInt8} (h : b ∈ String.utf8EncodeChar c)
    (hb : b.toNat < 128) : c.val.toNat = b.toNat := by
  rw [utf8EncodeChar_eq] at h
  rcases List.mem_cons.mp h with h | h
  · rw [h, UInt8.toNat_ofNat', Nat.mod_eq_of_lt (lead_lt (val_lt c))] at hb ⊢
    revert hb
    unfold lead
    split_ifs <;> omega
  · have hle := le_of_mem_continuation h
    omega

theorem bytes_cons (c : Char) (cs : Text) : bytes (c :: cs) = String.utf8EncodeChar c ++ bytes cs :=
  List.flatMap_cons

/-! ## The grammar -/

/-- The byte of a backslash. -/
def escapeByte : UInt8 := 0x5C

namespace Quote

/-- The byte of a quote. -/
def byte : Quote → UInt8
  | .single => 0x27
  | .double => 0x22

/-- A byte that stands for itself between quotes. -/
def Bare (quote : Quote) (b : UInt8) : Prop :=
  b ≠ quote.byte ∧ (quote = .double → b ≠ escapeByte)

/-- What stands between the quotes. -/
inductive Body : Quote → List UInt8 → Prop
  | nil (quote : Quote) : Body quote []
  | bare {quote : Quote} {b : UInt8} {body : List UInt8} (hbare : quote.Bare b) :
      Body quote body → Body quote (b :: body)
  | doubled {body : List UInt8} : Body .single body →
      Body .single (Quote.single.byte :: Quote.single.byte :: body)
  | escaped {body : List UInt8} (b : UInt8) : Body .double body →
      Body .double (escapeByte :: b :: body)

/-- Behind an opening quote, `body` and a closing quote stand at the beginning of `remaining`. A single
quote with another one behind it closes nothing. -/
def Closes (quote : Quote) (remaining body : List UInt8) : Prop :=
  quote.Body body ∧ ∃ after, remaining = body ++ quote.byte :: after ∧
    (quote = .single → after.head? ≠ some quote.byte)

/-- The bytes `piece` are a quoted scalar at the beginning of `remaining`. -/
def Cuts (quote : Quote) (remaining piece : List UInt8) : Prop :=
  ∃ inside body, remaining = quote.byte :: inside ∧ quote.Closes inside body ∧
    piece = quote.byte :: (body ++ [quote.byte])

variable {quote : Quote} {remaining body : List UInt8}

theorem byte_ne_escapeByte (quote : Quote) : quote.byte ≠ escapeByte := by
  cases quote <;> decide

/-! ## One equation for each beginning -/

theorem not_closes_nil : ¬ quote.Closes [] body := by
  rintro ⟨-, after, hremaining, -⟩
  exact absurd hremaining (by simp)

theorem closes_bare_iff {b : UInt8} (hb : quote.Bare b) :
    quote.Closes (b :: remaining) body ↔ ∃ body', body = b :: body' ∧ quote.Closes remaining body' := by
  constructor
  · rintro ⟨hbody, after, hremaining, hafter⟩
    cases hbody with
    | nil => exact absurd (List.cons.inj hremaining).1 hb.1
    | bare _ hbody =>
      obtain ⟨rfl, htail⟩ := List.cons.inj hremaining
      exact ⟨_, rfl, hbody, after, htail, hafter⟩
    | doubled => exact absurd (List.cons.inj hremaining).1 hb.1
    | escaped => exact absurd (List.cons.inj hremaining).1 (hb.2 rfl)
  · rintro ⟨body', rfl, hbody, after, rfl, hafter⟩
    exact ⟨.bare hb hbody, after, rfl, hafter⟩

theorem closes_bare_append_iff {bs : List UInt8} (hbs : ∀ b ∈ bs, quote.Bare b) :
    quote.Closes (bs ++ remaining) body ↔
      ∃ body', body = bs ++ body' ∧ quote.Closes remaining body' := by
  induction bs generalizing body with
  | nil => simp
  | cons b bs ih =>
    rw [List.cons_append, closes_bare_iff (hbs b List.mem_cons_self)]
    simp only [ih fun b hb => hbs b (List.mem_cons_of_mem _ hb)]
    constructor
    · rintro ⟨_, rfl, body', rfl, hcloses⟩
      exact ⟨body', rfl, hcloses⟩
    · rintro ⟨body', rfl, hcloses⟩
      exact ⟨_, rfl, body', rfl, hcloses⟩

/-- A quote closes, unless it is a single one with another behind it. -/
theorem closes_quote_iff (h : quote = .single → remaining.head? ≠ some quote.byte) :
    quote.Closes (quote.byte :: remaining) body ↔ body = [] := by
  constructor
  · rintro ⟨hbody, after, hremaining, -⟩
    cases hbody with
    | nil => rfl
    | bare hbare => exact absurd (List.cons.inj hremaining).1.symm hbare.1
    | doubled =>
      rw [(List.cons.inj hremaining).2] at h
      exact absurd rfl (h rfl)
    | escaped => exact absurd (List.cons.inj hremaining).1 (byte_ne_escapeByte _)
  · rintro rfl
    exact ⟨.nil quote, remaining, rfl, h⟩

theorem closes_doubled_iff :
    Quote.single.Closes (Quote.single.byte :: Quote.single.byte :: remaining) body ↔
      ∃ body', body = Quote.single.byte :: Quote.single.byte :: body' ∧
        Quote.single.Closes remaining body' := by
  constructor
  · rintro ⟨hbody, after, hremaining, hafter⟩
    cases hbody with
    | nil =>
      rw [← (List.cons.inj hremaining).2] at hafter
      exact absurd rfl (hafter rfl)
    | bare hbare => exact absurd (List.cons.inj hremaining).1.symm hbare.1
    | doubled hbody =>
      exact ⟨_, rfl, hbody, after, (List.cons.inj (List.cons.inj hremaining).2).2, hafter⟩
  · rintro ⟨body', rfl, hbody, after, rfl, hafter⟩
    exact ⟨.doubled hbody, after, rfl, hafter⟩

theorem closes_escaped_iff {b : UInt8} :
    Quote.double.Closes (escapeByte :: b :: remaining) body ↔
      ∃ body', body = escapeByte :: b :: body' ∧ Quote.double.Closes remaining body' := by
  constructor
  · rintro ⟨hbody, after, hremaining, hafter⟩
    cases hbody with
    | nil => exact absurd (List.cons.inj hremaining).1.symm (byte_ne_escapeByte _)
    | bare hbare => exact absurd (List.cons.inj hremaining).1.symm (hbare.2 rfl)
    | escaped b' hbody =>
      obtain ⟨rfl, htail⟩ := List.cons.inj (List.cons.inj hremaining).2
      exact ⟨_, rfl, hbody, after, htail, hafter⟩
  · rintro ⟨body', rfl, hbody, after, rfl, hafter⟩
    exact ⟨.escaped b hbody, after, rfl, hafter⟩

theorem not_closes_escape : ¬ Quote.double.Closes [escapeByte] body := by
  rintro ⟨hbody, after, hremaining, -⟩
  cases hbody with
  | nil => exact absurd (List.cons.inj hremaining).1.symm (byte_ne_escapeByte _)
  | bare hbare => exact absurd (List.cons.inj hremaining).1.symm (hbare.2 rfl)
  | escaped => exact absurd (List.cons.inj hremaining).2 (by simp)

/-- **The grammar leaves no choice.** -/
theorem Closes.unique {other : List UInt8} (h : quote.Closes remaining body)
    (hother : quote.Closes remaining other) : body = other := by
  obtain ⟨hbody, after, rfl, hafter⟩ := h
  induction hbody generalizing other with
  | nil quote => exact ((closes_quote_iff hafter).mp hother).symm
  | bare hbare _ ih =>
    obtain ⟨other', rfl, hother'⟩ := (closes_bare_iff hbare).mp hother
    rw [ih hafter hother']
  | doubled _ ih =>
    obtain ⟨other', rfl, hother'⟩ := closes_doubled_iff.mp hother
    rw [ih hafter hother']
  | escaped b _ ih =>
    obtain ⟨other', rfl, hother'⟩ := closes_escaped_iff.mp hother
    rw [ih hafter hother']

/-! ## Characters -/

theorem utf8EncodeChar_char (quote : Quote) : String.utf8EncodeChar quote.char = [quote.byte] := by
  cases quote <;> decide

theorem bytes_char_cons (quote : Quote) (rest : Text) :
    bytes (quote.char :: rest) = quote.byte :: bytes rest := by
  rw [bytes_cons, utf8EncodeChar_char]
  rfl

theorem eq_char_of_mem {c : Char} (h : quote.byte ∈ String.utf8EncodeChar c) : c = quote.char := by
  have hbyte : quote.byte.toNat < 128 ∧ quote.byte.toNat = quote.char.val.toNat := by
    cases quote <;> decide
  apply Char.ext
  apply UInt32.toNat.inj
  rw [val_eq_of_mem_utf8EncodeChar h hbyte.1, hbyte.2]

theorem eq_escape_of_mem {c : Char} (h : escapeByte ∈ String.utf8EncodeChar c) : c = '\\' := by
  apply Char.ext
  apply UInt32.toNat.inj
  exact val_eq_of_mem_utf8EncodeChar h (by decide)

/-- The bytes of a character that is no quote and no escape stand for themselves. -/
theorem bare_of_mem {c : Char} (hquote : c ≠ quote.char) (hescape : quote = .double → c ≠ '\\') :
    ∀ b ∈ String.utf8EncodeChar c, quote.Bare b := by
  intro b hb
  constructor
  · rintro rfl
    exact hquote (eq_char_of_mem hb)
  · rintro hdouble rfl
    exact hescape hdouble (eq_escape_of_mem hb)

theorem bare_of_le {b : UInt8} (h : 128 ≤ b.toNat) : quote.Bare b := by
  constructor
  · rintro rfl
    cases quote <;> exact absurd h (by decide)
  · rintro - rfl
    exact absurd h (by decide)

theorem head?_bytes_ne {rest : Text} (h : rest.head? ≠ some quote.char) :
    (bytes rest).head? ≠ some quote.byte := by
  cases rest with
  | nil => simp [bytes]
  | cons c rest =>
    intro hhead
    apply h
    rw [bytes_cons, utf8EncodeChar_eq, List.cons_append, List.head?_cons] at hhead
    have hmem : quote.byte ∈ String.utf8EncodeChar c := by
      rw [utf8EncodeChar_eq, Option.some.inj hhead]
      exact List.mem_cons_self
    rw [List.head?_cons, eq_char_of_mem hmem]

theorem closes_other_iff {c : Char} {rest : Text} (hquote : c ≠ quote.char)
    (hescape : quote = .double → c ≠ '\\') :
    quote.Closes (bytes (c :: rest)) body ↔
      ∃ body', body = String.utf8EncodeChar c ++ body' ∧ quote.Closes (bytes rest) body' := by
  rw [bytes_cons]
  exact closes_bare_append_iff (bare_of_mem hquote hescape)

/-- An escape takes the first byte of a character, and the others stand for themselves. -/
theorem closes_escape_iff {d : Char} {rest : Text} :
    Quote.double.Closes (bytes ('\\' :: d :: rest)) body ↔
      ∃ body', body = escapeByte :: (String.utf8EncodeChar d ++ body') ∧
        Quote.double.Closes (bytes rest) body' := by
  have hbytes : bytes ('\\' :: d :: rest) =
      escapeByte :: UInt8.ofNat (lead d.val.toNat) ::
        (continuation (continuations d.val.toNat) d.val.toNat ++ bytes rest) := by
    rw [bytes_cons, bytes_cons, utf8EncodeChar_eq d]
    rfl
  rw [hbytes, closes_escaped_iff]
  simp only [closes_bare_append_iff fun b hb => bare_of_le (le_of_mem_continuation hb)]
  rw [utf8EncodeChar_eq]
  constructor
  · rintro ⟨_, rfl, body', rfl, hcloses⟩
    exact ⟨body', rfl, hcloses⟩
  · rintro ⟨body', rfl, hcloses⟩
    exact ⟨_, rfl, body', rfl, hcloses⟩

end Quote

/-! ## The searches -/

namespace Scanner

variable {rest : Text} {body : List UInt8}

/-- A single-quoted scalar that is found is one of the grammar. -/
theorem exists_closes_single {n : Nat} (h : singleQuotedLength? rest = some n) :
    ∃ body, Quote.single.Closes (bytes rest) body ∧
      bytes (rest.take n) = body ++ [Quote.single.byte] := by
  fun_induction singleQuotedLength? rest generalizing n with
  | case1 => exact absurd h (by simp)
  | case2 rest ih =>
    obtain ⟨m, hm, rfl⟩ := Option.map_eq_some_iff.mp h
    obtain ⟨body, hcloses, hbytes⟩ := ih hm
    refine ⟨_, Quote.closes_doubled_iff.mpr ⟨body, rfl, hcloses⟩, ?_⟩
    exact congrArg (Quote.single.byte :: Quote.single.byte :: ·) hbytes
  | case3 rest hne =>
    obtain rfl := Option.some.inj h
    have hhead : (bytes rest).head? ≠ some Quote.single.byte := by
      apply Quote.head?_bytes_ne
      intro hhead
      obtain ⟨tail, rfl⟩ := List.head?_eq_some_iff.mp hhead
      exact hne tail rfl
    exact ⟨[], (Quote.closes_quote_iff fun _ => hhead).mpr rfl, rfl⟩
  | case4 c rest _ hquote ih =>
    obtain ⟨m, hm, rfl⟩ := Option.map_eq_some_iff.mp h
    obtain ⟨body, hcloses, hbytes⟩ := ih hm
    have hc : c ≠ Quote.single.char := hquote
    refine ⟨_, (Quote.closes_other_iff hc (by simp)).mpr ⟨body, rfl, hcloses⟩, ?_⟩
    rw [List.take_succ_cons, bytes_cons, hbytes, List.append_assoc]

theorem not_closes_single (h : singleQuotedLength? rest = none) :
    ¬ Quote.single.Closes (bytes rest) body := by
  fun_induction singleQuotedLength? rest generalizing body with
  | case1 => exact Quote.not_closes_nil
  | case2 rest ih =>
    intro hcloses
    obtain ⟨body', -, hcloses'⟩ := Quote.closes_doubled_iff.mp hcloses
    exact ih (Option.map_eq_none_iff.mp h) hcloses'
  | case3 => exact absurd h (by simp)
  | case4 c rest _ hquote ih =>
    intro hcloses
    have hc : c ≠ Quote.single.char := hquote
    obtain ⟨body', -, hcloses'⟩ := (Quote.closes_other_iff hc (by simp)).mp hcloses
    exact ih (Option.map_eq_none_iff.mp h) hcloses'

/-- A double-quoted scalar that is found is one of the grammar. -/
theorem exists_closes_double {n : Nat} (h : doubleQuotedLength? rest = some n) :
    ∃ body, Quote.double.Closes (bytes rest) body ∧
      bytes (rest.take n) = body ++ [Quote.double.byte] := by
  fun_induction doubleQuotedLength? rest generalizing n with
  | case1 => exact absurd h (by simp)
  | case2 => exact absurd h (by simp)
  | case3 d rest ih =>
    obtain ⟨m, hm, rfl⟩ := Option.map_eq_some_iff.mp h
    obtain ⟨body, hcloses, hbytes⟩ := ih hm
    refine ⟨_, Quote.closes_escape_iff.mpr ⟨body, rfl, hcloses⟩, ?_⟩
    rw [List.take_succ_cons, List.take_succ_cons, bytes_cons, bytes_cons, hbytes, List.cons_append,
      List.append_assoc]
    rfl
  | case4 rest =>
    obtain rfl := Option.some.inj h
    have hcloses : Quote.double.Closes (Quote.double.byte :: bytes rest) [] :=
      (Quote.closes_quote_iff (by simp)).mpr rfl
    exact ⟨[], hcloses, rfl⟩
  | case5 c rest h₁ h₂ h₃ ih =>
    obtain ⟨m, hm, rfl⟩ := Option.map_eq_some_iff.mp h
    obtain ⟨body, hcloses, hbytes⟩ := ih hm
    have hc : c ≠ Quote.double.char := h₃
    have hescape := ne_escape h₁ h₂
    refine ⟨_, (Quote.closes_other_iff hc fun _ => hescape).mpr ⟨body, rfl, hcloses⟩, ?_⟩
    rw [List.take_succ_cons, bytes_cons, hbytes, List.append_assoc]

theorem not_closes_double (h : doubleQuotedLength? rest = none) :
    ¬ Quote.double.Closes (bytes rest) body := by
  fun_induction doubleQuotedLength? rest generalizing body with
  | case1 => exact Quote.not_closes_nil
  | case2 => exact Quote.not_closes_escape
  | case3 d rest ih =>
    intro hcloses
    obtain ⟨body', -, hcloses'⟩ := Quote.closes_escape_iff.mp hcloses
    exact ih (Option.map_eq_none_iff.mp h) hcloses'
  | case4 => exact absurd h (by simp)
  | case5 c rest h₁ h₂ h₃ ih =>
    intro hcloses
    have hc : c ≠ Quote.double.char := h₃
    have hescape := ne_escape h₁ h₂
    obtain ⟨body', -, hcloses'⟩ := (Quote.closes_other_iff hc fun _ => hescape).mp hcloses
    exact ih (Option.map_eq_none_iff.mp h) hcloses'

/-- A quoted scalar is found exactly if the grammar has one, and then it is that one. -/
theorem cuts_iff {quote : Quote} {piece : List UInt8} :
    quote.Cuts (bytes (quote.char :: rest)) piece ↔
      ∃ n, quotedLength? quote rest = some n ∧ piece = bytes (quote.char :: rest.take n) := by
  have hfound : ∀ n, quotedLength? quote rest = some n →
      ∃ body, quote.Closes (bytes rest) body ∧ bytes (rest.take n) = body ++ [quote.byte] := by
    intro n hn
    cases quote with
    | single => exact exists_closes_single hn
    | double => exact exists_closes_double hn
  rw [Quote.bytes_char_cons]
  constructor
  · rintro ⟨inside, body, hinside, hcloses, rfl⟩
    obtain rfl := (List.cons.inj hinside).2
    cases hlength : quotedLength? quote rest with
    | none =>
      cases quote with
      | single => exact absurd hcloses (not_closes_single hlength)
      | double => exact absurd hcloses (not_closes_double hlength)
    | some n =>
      obtain ⟨body', hcloses', hbytes⟩ := hfound n hlength
      refine ⟨n, rfl, ?_⟩
      rw [Quote.bytes_char_cons, hbytes, hcloses.unique hcloses']
  · rintro ⟨n, hn, rfl⟩
    obtain ⟨body, hcloses, hbytes⟩ := hfound n hn
    refine ⟨bytes rest, body, rfl, hcloses, ?_⟩
    rw [Quote.bytes_char_cons, hbytes]

/-! ## Where quoted scalars start -/

/-- A scan starts a quoted scalar at a byte offset if it comes through a place there with a quote in front
of it. -/
def StartsQuoted (text : Text) (offset : Nat) (quote : Quote) : Prop :=
  ∃ tokens here rest, Reaches (.initial text) text tokens here (quote.char :: rest) ∧ here.pos = offset

theorem lexeme_of_quote (s : State) (quote : Quote) (rest : Text) :
    lexeme s quote.char rest = quotedScalar quote rest := by
  rw [lexeme_eq_read, shapeAt_quote]
  rfl

variable {text : Text} {offset : Nat} {quote : Quote}

theorem StartsQuoted.exists_rest (h : StartsQuoted text offset quote) :
    ∃ tokens here rest, Reaches (.initial text) text tokens here (quote.char :: rest) ∧
      here.pos = offset ∧ (bytes text).drop offset = bytes (quote.char :: rest) := by
  obtain ⟨tokens, here, rest, hreaches, hoffset⟩ := h
  obtain ⟨taken, htext, hpos⟩ := hreaches.exists_front
  have hlength : offset = (bytes taken).length := by
    rw [length_bytes, ← hoffset, hpos]
  refine ⟨tokens, here, rest, hreaches, hoffset, ?_⟩
  rw [hlength, htext, bytes_append, List.drop_left]

theorem StartsQuoted.getElem? (h : StartsQuoted text offset quote) :
    (bytes text)[offset]? = some quote.byte := by
  obtain ⟨_, _, rest, -, -, hbytes⟩ := h.exists_rest
  rw [← Nat.add_zero offset, ← List.getElem?_drop, hbytes, Quote.bytes_char_cons]
  rfl

/-- Where a quoted scalar starts, either the grammar has one and it becomes a token, or it has none and
the scan ends with a fault. -/
theorem StartsQuoted.outcome (h : StartsQuoted text offset quote) :
    (∃ piece, quote.Cuts ((bytes text).drop offset) piece ∧
        ⟨.scalar, offset, offset + piece.length⟩ ∈ (yamlScanner text).tokens) ∨
      (¬ ∃ piece, quote.Cuts ((bytes text).drop offset) piece) ∧
        (yamlScanner text).error = some ⟨offset, .unterminated quote⟩ := by
  obtain ⟨tokens, here, rest, hreaches, rfl, hbytes⟩ := h.exists_rest
  obtain ⟨htokens, herror⟩ := hreaches.run_eq
  rw [run, lexeme_of_quote, quotedScalar] at htokens herror
  simp only [hbytes, cuts_iff]
  cases hlength : quotedLength? quote rest with
  | none =>
    rw [hlength] at herror
    exact Or.inr ⟨by simp, herror⟩
  | some n =>
    rw [hlength] at htokens
    refine Or.inl ⟨_, ⟨n, rfl, rfl⟩, ?_⟩
    show _ ∈ (run (.initial text) text).tokens
    rw [htokens, consToken_tokens, after_pos, length_bytes]
    exact List.mem_append_right _ List.mem_cons_self

theorem startsQuoted_of_token {stop : Nat} (ht : ⟨.scalar, offset, stop⟩ ∈ (yamlScanner text).tokens)
    (hbyte : (bytes text)[offset]? = some quote.byte) : StartsQuoted text offset quote := by
  obtain ⟨last, left, hreaches, -⟩ := exists_halt (.initial text) text
  obtain ⟨before, here, c, rest, n, hhere, -, hstart, -⟩ := hreaches.exists_step ht
  obtain ⟨taken, htext, hpos⟩ := hhere.exists_front
  have hmem : quote.byte ∈ String.utf8EncodeChar c := by
    have hoffset : offset = (bytes taken).length := by
      rw [length_bytes]
      exact hstart.trans hpos
    rw [hoffset, htext, bytes_append, List.getElem?_append_right (Nat.le_refl _), Nat.sub_self,
      bytes_cons, utf8EncodeChar_eq] at hbyte
    rw [utf8EncodeChar_eq, ← Option.some.inj hbyte]
    exact List.mem_cons_self
  rw [Quote.eq_char_of_mem hmem] at hhere
  exact ⟨before, here, rest, hhere, hstart.symm⟩

theorem startsQuoted_of_error (h : (yamlScanner text).error = some ⟨offset, .unterminated quote⟩) :
    StartsQuoted text offset quote := by
  obtain ⟨last, left, hreaches, hhalts, -⟩ := exists_halt (.initial text) text
  cases hhalts with
  | finished herror =>
    obtain ⟨entry, -, hentry⟩ := Option.map_eq_some_iff.mp (herror.symm.trans h)
    exact absurd (ScanError.mk.inj hentry).2 (by simp)
  | @stuck c rest fault hfault herror =>
    obtain ⟨hoffset, rfl⟩ := ScanError.mk.inj (Option.some.inj (herror.symm.trans h))
    rcases fault_of_lexeme hfault with ⟨bracket, -, hclose⟩ | ⟨quote', rfl, hquote⟩
    · rcases fault_of_closeFlow hclose with ⟨-, hne⟩ | ⟨_, _, _, -, -, hne⟩
      · exact absurd hne (by simp)
      · exact absurd hne (by simp)
    · obtain rfl := ScanFault.unterminated.inj hquote
      exact ⟨_, last, rest, hreaches, hoffset⟩

end Scanner

/-- The wording of a fault that is about a quote. -/
def Quote.complaint : Quote → String
  | .single => "unterminated single-quoted scalar"
  | .double => "unterminated double-quoted scalar"

theorem ScanFault.eq_of_complaint {fault : ScanFault} {quote : Quote}
    (h : ∀ message, fault ≠ .reported message) (hmessage : fault.message = quote.complaint) :
    fault = .unterminated quote := by
  revert hmessage
  cases fault with
  | reported message => exact absurd rfl (h message)
  | unterminated other => cases other <;> cases quote <;> decide
  | unclosed b => cases b <;> cases quote <;> decide
  | unexpected b => cases b <;> cases quote <;> decide
  | mismatched o b => cases o <;> cases b <;> cases quote <;> decide

/-- Nothing of what the scanner says is in the words of a foreign tokenizer. -/
theorem fault_ne_reported {text : Text} {e : ScanError} (h : (yamlScanner text).error = some e)
    (message : String) : e.fault ≠ .reported message := by
  obtain ⟨last, left, -, hhalts, -⟩ := Scanner.exists_halt (.initial text) text
  intro hreported
  cases hhalts with
  | finished herror =>
    obtain ⟨entry, -, rfl⟩ := Option.map_eq_some_iff.mp (herror.symm.trans h)
    exact absurd hreported (by simp)
  | @stuck c rest fault hfault herror =>
    obtain rfl := Option.some.inj (herror.symm.trans h)
    obtain rfl : fault = .reported message := hreported
    exact absurd (Scanner.isFatal_of_lexeme hfault) (by simp [ScanFault.isFatal])

theorem Quote.Cuts.unique {quote : Quote} {remaining piece piece' : List UInt8}
    (h : quote.Cuts remaining piece) (h' : quote.Cuts remaining piece') : piece = piece' := by
  obtain ⟨inside, body, rfl, hcloses, rfl⟩ := h
  obtain ⟨inside', body', hinside, hcloses', rfl⟩ := h'
  obtain rfl := (List.cons.inj hinside).2
  rw [hcloses.unique hcloses']

/-- How quoted scalars are cut out of a text. -/
structure QuotedScalars (text : Text) (scan : Scan) : Prop where
  /-- Where one starts can be seen from the scan. -/
  starts : ∀ offset quote, Scanner.StartsQuoted text offset quote ↔
    (∃ stop, ⟨.scalar, offset, stop⟩ ∈ scan.tokens ∧ (bytes text)[offset]? = some quote.byte) ∨
      scan.error = some ⟨offset, .unterminated quote⟩
  /-- No bytes begin with two quoted scalars. -/
  unique : ∀ (quote : Quote) remaining piece piece',
    quote.Cuts remaining piece → quote.Cuts remaining piece' → piece = piece'
  /-- The token is what the grammar cuts off. -/
  token : ∀ offset quote, Scanner.StartsQuoted text offset quote → ∀ kind stop,
    ⟨kind, offset, stop⟩ ∈ scan.tokens ↔
      kind = .scalar ∧ ∃ piece, quote.Cuts ((bytes text).drop offset) piece ∧
        stop = offset + piece.length
  /-- The fault says that the grammar cuts nothing off. -/
  fault : ∀ offset quote, Scanner.StartsQuoted text offset quote →
    ((∃ fault, scan.error = some ⟨offset, fault⟩ ∧ fault.message = quote.complaint) ↔
      ¬ ∃ piece, quote.Cuts ((bytes text).drop offset) piece)

/-- **Quoted scalars are cut out by their grammar.** -/
theorem yamlScanner_quoted (text : Text) : QuotedScalars text (yamlScanner text) := by
  -- A fault about a quote is where the scan stops, so no token starts there.
  have hstop : ∀ {offset quote}, (yamlScanner text).error = some ⟨offset, .unterminated quote⟩ →
      ∀ kind stop, ⟨kind, offset, stop⟩ ∉ (yamlScanner text).tokens := by
    intro offset quote herror kind stop ht
    have hextent := extent_of_mem_tokens ht
    have hoffset := Scanner.offset_eq_stopOffset herror rfl
    simp only at hextent hoffset
    omega
  refine ⟨?_, fun _ _ _ _ => Quote.Cuts.unique, ?_, ?_⟩
  · intro offset quote
    constructor
    · intro hstarts
      rcases hstarts.outcome with ⟨piece, -, ht⟩ | ⟨-, herror⟩
      · exact Or.inl ⟨_, ht, hstarts.getElem?⟩
      · exact Or.inr herror
    · rintro (⟨stop, ht, hbyte⟩ | herror)
      · exact Scanner.startsQuoted_of_token ht hbyte
      · exact Scanner.startsQuoted_of_error herror
  · intro offset quote hstarts kind stop
    rcases hstarts.outcome with ⟨piece, hcuts, ht⟩ | ⟨hnone, herror⟩
    · constructor
      · intro hu
        have hsame := eq_of_start_eq ht hu rfl
        cases hsame
        exact ⟨rfl, piece, hcuts, rfl⟩
      · rintro ⟨rfl, piece', hcuts', rfl⟩
        rwa [hcuts'.unique hcuts]
    · refine iff_of_false (hstop herror kind stop) ?_
      rintro ⟨-, piece, hcuts, -⟩
      exact hnone ⟨piece, hcuts⟩
  · intro offset quote hstarts
    rcases hstarts.outcome with ⟨piece, hcuts, ht⟩ | ⟨hnone, herror⟩
    · refine iff_of_false ?_ fun hnone => hnone ⟨piece, hcuts⟩
      rintro ⟨fault, herror, hmessage⟩
      obtain rfl : fault = .unterminated quote :=
        ScanFault.eq_of_complaint (fault_ne_reported herror) hmessage
      exact hstop herror _ _ ht
    · refine iff_of_true ⟨_, herror, ?_⟩ hnone
      cases quote <;> rfl

end YamlStyle
