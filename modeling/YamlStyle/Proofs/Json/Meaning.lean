import YamlStyle.Proofs.Json.Syntax

/-!
# What JSON documents stand for

`Document` keeps how a document is written, and here is what it **means**: units of a string stand for
characters, digits for an integer, and entries for items or for members. A number with a fraction or an
exponent has no meaning here, and neither has half of a surrogate pair.

The writer is measured against this. A value is **faithful** if what is written of it, at any depth, is
the text of a tree that means that value. There is one lemma for each way to put faithful values
together, and from them a document as it is printed (`Faithful.exists_document`).
-/

set_option autoImplicit false

namespace YamlStyle

namespace Json

/-! ## Meaning -/

/-- The character that a unit of a string stands for. -/
def StringUnit.char? : StringUnit → Option Char
  | .plain c _ => some c
  | .short c _ => shortEscape? c
  | .code first second third fourth =>
    (hexNumber? [first, second, third, fourth]).bind charOfCode?

/-- The string that is written with some units. -/
def string? (units : List StringUnit) : Option String :=
  (units.mapM StringUnit.char?).map String.ofList

/-- The integer that a number stands for, if it is written as an integer. -/
def Numeral.int? (n : Numeral) : Option Int :=
  if n.fraction.isNone && n.exponent.isNone then
    some (if n.negative then -(decimalValue n.whole.text : Int) else decimalValue n.whole.text)
  else none

def Literal.meaning? : Literal → Option Value
  | .string units => (string? units).map .str
  | .number n => n.int?.map .int
  | .bool b => some (.bool b)
  | .null => some .null

/-- The name of a member. Items have none. -/
def Entry.name? {bracket : Bracket} : Entry bracket → Option String
  | .item _ => none
  | .member name _ _ _ => string? name

def Entries.toList {bracket : Bracket} : Entries bracket → List (Entry bracket)
  | .last _ entry _ => [entry]
  | .more _ entry _ rest => entry :: rest.toList

mutual

/-- The value that a tree means. -/
def Node.meaning? : Node → Option Value
  | .literal l => l.meaning?
  | .empty .square _ => some (.list [])
  | .empty .curly _ => some (.table [])
  | .filled bracket entries => do
    let values ← entries.meanings?
    match bracket with
    | .square => pure (.list values)
    | .curly =>
      let names ← entries.toList.mapM Entry.name?
      pure (.table (names.zip values))

def Entry.meaning? {bracket : Bracket} : Entry bracket → Option Value
  | .item value => value.meaning?
  | .member _ _ _ value => value.meaning?

/-- The values of the entries of a collection. -/
def Entries.meanings? {bracket : Bracket} : Entries bracket → Option (List Value)
  | .last _ entry _ => entry.meaning?.map ([·])
  | .more _ entry _ rest => do
    let value ← entry.meaning?
    let values ← rest.meanings?
    pure (value :: values)

end

def Document.meaning? (d : Document) : Option Value := d.node.meaning?

theorem Entries.meanings?_eq {bracket : Bracket} (entries : Entries bracket) :
    entries.meanings? = entries.toList.mapM Entry.meaning? := by
  match entries with
  | .last _ entry _ =>
    rw [meanings?, toList, List.mapM_cons, List.mapM_nil]
    cases entry.meaning? <;> rfl
  | .more _ entry _ rest => rw [meanings?, rest.meanings?_eq, toList, List.mapM_cons]

/-! ## Writing literals -/

theorem isSome_hexValue?_hexDigit : ∀ n < 16, (hexValue? (hexDigit n)).isSome = true := by
  decide +kernel

/-- A hexadecimal digit as it is written. -/
def HexDigit.of (n : Nat) (h : n < 16) : HexDigit := ⟨hexDigit n, isSome_hexValue?_hexDigit n h⟩

theorem charOfCode?_of_lt : ∀ n < 32, (hexNumber? ['0', '0', hexDigit (n / 16), hexDigit (n % 16)]).bind
    charOfCode? = some (Char.ofNat n) := by
  decide +kernel

theorem exists_unit (c : Char) :
    ∃ unit : StringUnit, unit.text = escape c ∧ unit.char? = some c := by
  unfold escape
  split
  · exact ⟨.short '"' rfl, rfl, rfl⟩
  · exact ⟨.short '\\' rfl, rfl, rfl⟩
  · exact ⟨.short 'b' rfl, rfl, rfl⟩
  · exact ⟨.short 'f' rfl, rfl, rfl⟩
  · exact ⟨.short 'n' rfl, rfl, rfl⟩
  · exact ⟨.short 'r' rfl, rfl, rfl⟩
  · exact ⟨.short 't' rfl, rfl, rfl⟩
  · rename_i hquote hbackslash _ _ _ _ _
    by_cases hlow : c.toNat < 0x20
    · rw [if_pos hlow]
      refine ⟨.code ⟨'0', rfl⟩ ⟨'0', rfl⟩ (.of (c.toNat / 16) (by omega))
        (.of (c.toNat % 16) (by omega)), rfl, ?_⟩
      have hcode := charOfCode?_of_lt c.toNat hlow
      rwa [Char.ofNat_toNat] at hcode
    · rw [if_neg hlow]
      exact ⟨.plain c ⟨Nat.le_of_not_lt hlow, hquote, hbackslash⟩, rfl, rfl⟩

theorem exists_units (s : Text) : ∃ units : List StringUnit,
    units.flatMap StringUnit.text = s.flatMap escape ∧ units.mapM StringUnit.char? = some s := by
  induction s with
  | nil => exact ⟨[], rfl, rfl⟩
  | cons c s ih =>
    obtain ⟨unit, htext, hchar⟩ := exists_unit c
    obtain ⟨units, htexts, hchars⟩ := ih
    refine ⟨unit :: units, ?_, ?_⟩
    · rw [List.flatMap_cons, List.flatMap_cons, htext, htexts]
    · rw [List.mapM_cons, hchar, hchars]
      rfl

theorem exists_string (s : String) : ∃ units : List StringUnit,
    (Literal.string units).text = (quote s).toList ∧ string? units = some s := by
  obtain ⟨units, htext, hchars⟩ := exists_units s.toList
  refine ⟨units, ?_, ?_⟩
  · rw [Literal.text, htext, quote, String.toList_ofList]
    rfl
  · rw [string?, hchars, Option.map_some, String.ofList_toList]

theorem digitChar_ne_zero : ∀ n < 10, 0 < n → n.digitChar ≠ '0' := by
  decide

theorem head?_toDigits_ne {n : Nat} (h : 0 < n) : (Nat.toDigits 10 n).head? ≠ some '0' := by
  induction n using Nat.strongRecOn with
  | ind n ih =>
    by_cases hlt : n < 10
    · rw [Nat.toDigits_of_lt_base hlt]
      intro hzero
      exact digitChar_ne_zero n hlt h (Option.some.inj hzero)
    · have hrest := ih (n / 10) (by omega) (by omega)
      have hsome : (Nat.toDigits 10 (n / 10)).head?.isSome = true :=
        List.isSome_head?.mpr Nat.toDigits_ne_nil
      rwa [Nat.toDigits_of_base_le (by decide) (by omega), List.head?_append,
        Option.or_of_isSome hsome]

theorem exists_digits (n : Nat) : ∃ digits : Digits, digits.text = Nat.toDigits 10 n ∧
    (digits.first.val = '0' → digits.more = []) := by
  have hdigits : ∀ c ∈ Nat.toDigits 10 n, c.isDigit = true := by
    intro c hc
    exact Nat.isDigit_of_mem_toDigits (by decide) (by decide) hc
  have hzero : (Nat.toDigits 10 n).head? = some '0' → n = 0 := by
    intro h
    rcases Nat.eq_zero_or_pos n with hn | hn
    · exact hn
    · exact absurd h (head?_toDigits_ne hn)
  cases htext : Nat.toDigits 10 n with
  | nil => exact absurd htext Nat.toDigits_ne_nil
  | cons c rest =>
    rw [htext] at hdigits hzero
    have hrest : ∀ d ∈ rest, d.isDigit = true := fun d hd => hdigits d (List.mem_cons_of_mem c hd)
    refine ⟨⟨⟨c, hdigits c List.mem_cons_self⟩, rest.attachWith _ hrest⟩, ?_, ?_⟩
    · rw [Digits.text, List.attachWith_map_subtype_val]
    · intro hc
      obtain rfl := hzero (congrArg some hc)
      rw [Nat.toDigits_zero] at htext
      obtain ⟨-, rfl⟩ := List.cons.inj htext
      rfl

theorem exists_numeral (n : Int) : ∃ numeral : Numeral,
    numeral.text = (toString n).toList ∧ numeral.int? = some n := by
  obtain ⟨digits, htext, hzero⟩ := exists_digits n.natAbs
  have hvalue : decimalValue digits.text = n.natAbs := by
    rw [htext]
    exact Nat.ofDigitChars_ten_toDigits
  refine ⟨⟨decide (n < 0), digits, none, none, hzero⟩, ?_, ?_⟩
  · rw [Int.toString_eq_repr]
    cases n with
    | ofNat n => simp [Numeral.text, htext, Int.repr, Nat.toList_repr]
    | negSucc n => simp [Numeral.text, htext, Int.repr, Nat.toList_repr, Int.negSucc_lt_zero]
  · simp only [Numeral.int?, hvalue, Option.isNone_none, Bool.and_self, if_true, decide_eq_true_eq]
    split <;> congr 1 <;> omega

/-! ## Writing collections -/

/-- Line break and indentation. -/
def indentation (level : Nat) : Gap := ⟨(newline level).toList, by simp [newline, isSpace]⟩

theorem val_indentation (level : Nat) : (indentation level).val = (newline level).toList := rfl

/-- Entries one below the other: a gap in front of each, and one behind the last. -/
def Entries.column {bracket : Bracket} (inner outer : Gap) (entry : Entry bracket) :
    List (Entry bracket) → Entries bracket
  | [] => .last inner entry outer
  | next :: rest => .more inner entry ⟨[], rfl⟩ (column inner outer next rest)

theorem textOf_column {bracket : Bracket} (inner outer : Gap) (entry : Entry bracket)
    (rest : List (Entry bracket)) :
    textOf (Entries.column inner outer entry rest).tiles =
      inner.val ++ (',' :: inner.val).intercalate ((entry :: rest).map fun e => textOf e.tiles) ++
        outer.val := by
  induction rest generalizing entry with
  | nil => simp [Entries.column, Entries.tiles, textOf, Tile.text]
  | cons next rest ih =>
    have htail := ih next
    simp only [textOf] at htail ⊢
    simp [Entries.column, Entries.tiles, Tile.text, htail]

theorem toList_column {bracket : Bracket} (inner outer : Gap) (entry : Entry bracket)
    (rest : List (Entry bracket)) : (Entries.column inner outer entry rest).toList = entry :: rest := by
  induction rest generalizing entry with
  | nil => rfl
  | cons next rest ih => rw [Entries.column, Entries.toList, ih]

/-- What is written of a value, at any depth, is the text of a tree that means it. -/
def Faithful (v : Value) : Prop :=
  ∀ level, ∃ node : Node, textOf node.tiles = (indented level v).toList ∧ node.meaning? = some v

theorem faithful_int (n : Int) : Faithful (.int n) := by
  intro level
  obtain ⟨numeral, htext, hvalue⟩ := exists_numeral n
  refine ⟨.literal (.number numeral), ?_, ?_⟩
  · simpa [Node.tiles, textOf, Tile.text, Literal.text, indented] using htext
  · rw [Node.meaning?, Literal.meaning?, hvalue]
    rfl

theorem faithful_str (s : String) : Faithful (.str s) := by
  intro level
  obtain ⟨units, htext, hvalue⟩ := exists_string s
  refine ⟨.literal (.string units), ?_, ?_⟩
  · simpa [Node.tiles, textOf, Tile.text, indented] using htext
  · rw [Node.meaning?, Literal.meaning?, hvalue]
    rfl

/-- A column of entries between brackets is what the writer makes of their texts. -/
theorem textOf_filled {bracket : Bracket} {left right : String} (hleft : left.toList = [bracket.opening])
    (hright : right.toList = [bracket.closing]) (level : Nat) {entry : Entry bracket}
    {rest : List (Entry bracket)} {rows : List String}
    (hrows : (entry :: rest).map (fun e => textOf e.tiles) = rows.map String.toList) :
    textOf (Node.filled bracket
      (.column (indentation (level + 1)) (indentation level) entry rest)).tiles =
        (bracketed left right level rows).toList := by
  have hcolumn := textOf_column (indentation (level + 1)) (indentation level) entry rest
  cases rows with
  | nil => exact absurd hrows (by simp)
  | cons row rows =>
    rw [hrows] at hcolumn
    simp only [textOf, val_indentation] at hcolumn
    simp [Node.tiles, textOf, Tile.text, hcolumn, bracketed, hleft, hright]

theorem exists_items {items : List Value} (h : ∀ v ∈ items, Faithful v) (level : Nat) :
    ∃ entries : List (Entry .square),
      entries.map (fun e => textOf e.tiles) = (indentedItems level items).map String.toList ∧
      entries.mapM Entry.meaning? = some items := by
  induction items with
  | nil => exact ⟨[], rfl, rfl⟩
  | cons v items ih =>
    obtain ⟨node, htext, hvalue⟩ := h v List.mem_cons_self level
    obtain ⟨entries, htexts, hvalues⟩ := ih fun w hw => h w (List.mem_cons_of_mem v hw)
    refine ⟨.item node :: entries, ?_, ?_⟩
    · rw [List.map_cons, htexts, Entry.tiles, htext]
      rfl
    · rw [List.mapM_cons, hvalues, Entry.meaning?, hvalue]
      rfl

theorem faithful_list {items : List Value} (h : ∀ v ∈ items, Faithful v) : Faithful (.list items) := by
  intro level
  obtain ⟨entries, htext, hvalues⟩ := exists_items h (level + 1)
  cases entries with
  | nil =>
    obtain rfl : [] = items := Option.some.inj hvalues
    refine ⟨.empty .square ⟨[], rfl⟩, ?_, rfl⟩
    simp [Node.tiles, textOf, Tile.text, indented, indentedItems, bracketed, Bracket.opening,
      Bracket.closing]
  | cons entry rest =>
    refine ⟨.filled .square (.column (indentation (level + 1)) (indentation level) entry rest), ?_, ?_⟩
    · exact textOf_filled rfl rfl level htext
    · rw [Node.meaning?, Entries.meanings?_eq, toList_column, hvalues]
      rfl

theorem exists_members {members : List (String × Value)} (h : ∀ m ∈ members, Faithful m.2)
    (level : Nat) : ∃ entries : List (Entry .curly),
      entries.map (fun e => textOf e.tiles) = (indentedEntries level members).map String.toList ∧
      entries.mapM Entry.name? = some (members.map (·.1)) ∧
      entries.mapM Entry.meaning? = some (members.map (·.2)) := by
  induction members with
  | nil => exact ⟨[], rfl, rfl, rfl⟩
  | cons m members ih =>
    obtain ⟨units, hquote, hname⟩ := exists_string m.1
    obtain ⟨node, htext, hvalue⟩ := h m List.mem_cons_self level
    obtain ⟨entries, htexts, hnames, hvalues⟩ := ih fun n hn => h n (List.mem_cons_of_mem m hn)
    refine ⟨.member units ⟨[], rfl⟩ ⟨[' '], rfl⟩ node :: entries, ?_, ?_, ?_⟩
    · rw [List.map_cons, htexts]
      simp only [textOf] at htext
      simp [Entry.tiles, textOf, Tile.text, hquote, htext, indentedEntries]
    · rw [List.mapM_cons, hnames, Entry.name?, hname]
      rfl
    · rw [List.mapM_cons, hvalues, Entry.meaning?, hvalue]
      rfl

theorem faithful_table {members : List (String × Value)} (h : ∀ m ∈ members, Faithful m.2) :
    Faithful (.table members) := by
  intro level
  obtain ⟨entries, htext, hnames, hvalues⟩ := exists_members h (level + 1)
  cases entries with
  | nil =>
    obtain rfl : members = [] := List.map_eq_nil_iff.mp (Option.some.inj hvalues).symm
    refine ⟨.empty .curly ⟨[], rfl⟩, ?_, rfl⟩
    simp [Node.tiles, textOf, Tile.text, indented, indentedEntries, bracketed, Bracket.opening,
      Bracket.closing]
  | cons entry rest =>
    refine ⟨.filled .curly (.column (indentation (level + 1)) (indentation level) entry rest), ?_, ?_⟩
    · exact textOf_filled rfl rfl level htext
    · have hzip : (members.map (·.1)).zip (members.map (·.2)) = members :=
        (List.zip_of_prod rfl rfl).symm
      rw [Node.meaning?, Entries.meanings?_eq, toList_column, hvalues]
      simp [hnames, hzip]

end Json

end YamlStyle
