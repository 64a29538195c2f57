import YamlStyle.Proofs.Cursor.Machine
import YamlStyle.Proofs.Scanner.BlockLines
import YamlStyle.Proofs.Scanner.Plain

/-!
# What a cursor reads

A cursor that stands between two characters reads what the scanner reads there, and nothing of it fails.
There is one equation for each kind of read, always of the same form: the bytes are those of
`front ++ back`, the offset is `width front`, and the answer is the one that the scanner has for `back`.

Reads that look for the first byte with some property are settled by `takeWhile_bytes`, and those that look
at one byte by `map_peek`. The reads that walk on their own are in `Walks`.
-/

set_option autoImplicit false

namespace YamlStyle

namespace Scanner

/-! ## Pieces -/

theorem cut?_bytes (front piece back : Text) :
    cut? (bytes (front ++ (piece ++ back))) (width front) (width front + width piece) =
      some (bytes piece) := by
  have hbound : width front ≤ width front + width piece ∧
      width front + width piece ≤ (bytes (front ++ (piece ++ back))).length := by
    rw [length_bytes, width_append, width_append]
    omega
  rw [cut?, if_pos hbound, bytes_append, ← length_bytes front, List.drop_left, bytes_append,
    Nat.add_sub_cancel_left, ← length_bytes piece, List.take_left]

theorem cut?_tail (front back : Text) :
    cut? (bytes (front ++ back)) (width front) (bytes (front ++ back)).length = some (bytes back) := by
  have hcut := cut?_bytes front back []
  rwa [List.append_nil, ← width_append, ← length_bytes (front ++ back)] at hcut

theorem stretchEnd?_bytes {test : Char → Bool} (htest : Coarse test) (front back : Text) :
    stretchEnd? test (bytes (front ++ back)) (width front) =
      some (width front + width (back.takeWhile test)) := by
  rw [stretchEnd?, cut?_tail]
  show some (width front + ((bytes back).takeWhile _).length) = _
  rw [takeWhile_bytes htest, length_bytes]

theorem lineEnd?_bytes (front back : Text) :
    lineEnd? (bytes (front ++ back)) (width front) = some (width front + width (lineContent back)) :=
  stretchEnd?_bytes (coarse_isBreak.comp (!·)) front back

theorem nameEnd?_bytes (front back : Text) :
    nameEnd? (bytes (front ++ back)) (width front) =
      some (width front + width (back.take (nameLength back))) := by
  rw [nameLength, take_length_takeWhile]
  exact stretchEnd?_bytes (((coarse_isBlank.or coarse_isBreak).or coarse_isFlowIndicator).comp (!·)) front back

/-! ## One byte -/

theorem exists_byte (front back : Text) (c : Char) :
    ∃ b, (bytes (front ++ c :: back))[width front]? = some b ∧ Blurs (byteChar b) c := by
  obtain ⟨b, hb, hfirst⟩ := exists_first_byte c back
  exact ⟨b, (getElem?_bytes front (c :: back) 0).trans hfirst, blurs_of_mem hb⟩

/-- To a test that is coarse, a look at a byte is a look at a character. -/
theorem map_peek {α : Type} {test : Char → α} (htest : Coarse test) (front back : Text) :
    (peek (bytes (front ++ back)) (width front)).map test = back.head?.map test := by
  cases back with
  | nil =>
    rw [peek, List.getElem?_eq_none (by simp)]
    rfl
  | cons c back =>
    obtain ⟨b, hb, hblurs⟩ := exists_byte front back c
    rw [peek, hb]
    exact congrArg some (hblurs.eq htest)

theorem any_peek {test : Char → Bool} (htest : Coarse test) (front back : Text) :
    (peek (bytes (front ++ back)) (width front)).any test = back.head?.any test := by
  have hmap := congrArg (Option.any id) (map_peek htest front back)
  rwa [Option.any_map, Option.any_map] at hmap

theorem peek_eq_some_iff {a : Char} (ha : a.toNat < 128) (front back : Text) :
    peek (bytes (front ++ back)) (width front) = some a ↔ back.head? = some a := by
  have hsome : ∀ o : Option Char, o = some a ↔ o.map (· == a) = some true := by
    intro o
    simp [Option.map_eq_some_iff]
  rw [hsome, hsome, map_peek (coarse_beq ha)]

theorem separatedAt_bytes (front back : Text) :
    separatedAt (bytes (front ++ back)) (width front) = isSeparated back := by
  have hmap := congrArg (Option.all id) (map_peek (coarse_isBlank.or coarse_isBreak) front back)
  rw [Option.all_map, Option.all_map] at hmap
  refine Eq.trans hmap ?_
  cases back <;> rfl

theorem endsKeyAt_bytes (inFlow : Bool) (front back : Text) :
    endsKeyAt (bytes (front ++ back)) inFlow (width front) = endsKey inFlow back := by
  rw [endsKeyAt, separatedAt_bytes, any_peek coarse_isFlowIndicator, endsKey]
  cases back <;> rfl

theorem endingLength_bytes (front back : Text) :
    endingLength (bytes (front ++ back)) (width front) = width (Ending.split back).1.text := by
  have hnext : ∀ rest, back = '\r' :: rest →
      (peek (bytes (front ++ back)) (width front + 1) = some '\n' ↔ rest.head? = some '\n') := by
    rintro rest rfl
    have hpeek := peek_eq_some_iff (a := '\n') (by decide) (front ++ ['\r']) rest
    rwa [List.append_assoc, width_append] at hpeek
  have hfirst : peek (bytes (front ++ back)) (width front) = some '\r' ↔ back.head? = some '\r' :=
    peek_eq_some_iff (by decide) front back
  simp only [endingLength, hfirst, any_peek coarse_isBreak]
  fun_cases Ending.split back with
  | case1 rest =>
    rw [if_pos ⟨rfl, (hnext _ rfl).mpr rfl⟩]
    rfl
  | case2 rest hcrlf =>
    have hlf : rest.head? ≠ some '\n' := by
      intro hhead
      obtain ⟨tail, rfl⟩ := List.head?_eq_some_iff.mp hhead
      exact hcrlf tail rfl
    rw [if_neg fun h => hlf ((hnext rest rfl).mp h.2)]
    rfl
  | case3 rest => rfl
  | case4 _ _ hcr hlf =>
    cases back with
    | nil => rfl
    | cons c back =>
      have hc : c ≠ '\r' ∧ c ≠ '\n' := ⟨fun h => hcr back (h ▸ rfl), fun h => hlf back (h ▸ rfl)⟩
      simp [isBreak, hc, Ending.text]

/-! ## Markers, blanks and spaces -/

theorem isPrefixOf_bytes {word : Text} (hword : ∀ a ∈ word, a.toNat < 128) (text : Text) :
    word.isPrefixOf ((bytes text).map byteChar) = word.isPrefixOf text := by
  induction word generalizing text with
  | nil => simp
  | cons a word ih =>
    have ha := hword a List.mem_cons_self
    cases text with
    | nil => rfl
    | cons c text =>
      by_cases hc : c.toNat < 128
      · obtain ⟨b, hencode, hchar⟩ := utf8EncodeChar_of_lt hc
        rw [bytes_cons, hencode, List.singleton_append, List.map_cons, List.isPrefixOf_cons_cons, hchar,
          ih (fun a ha => hword a (List.mem_cons_of_mem _ ha)), List.isPrefixOf_cons_cons]
      · -- The first byte is no more the first of the word than the character is.
        have hle := Nat.le_of_not_lt hc
        have hne : ∀ d : Char, 128 ≤ d.toNat → (a == d) = false := by
          intro d hd
          rw [Bool.beq_comm, beq_of_le hd ha]
        obtain ⟨b, tail, hencode⟩ : ∃ b tail, String.utf8EncodeChar c = b :: tail :=
          ⟨_, _, utf8EncodeChar_eq c⟩
        have hb : 128 ≤ (byteChar b).toNat :=
          le_of_mem_utf8EncodeChar hle (by rw [hencode]; exact List.mem_cons_self)
        rw [bytes_cons, hencode, List.cons_append, List.map_cons, List.isPrefixOf_cons_cons,
          List.isPrefixOf_cons_cons, hne c hle, hne _ hb, Bool.false_and, Bool.false_and]

theorem isMarker_eq_isPrefixOf (mark : Char) (rest : Text) :
    isMarker mark mark rest =
      ([mark, mark, mark].isPrefixOf (mark :: rest) && isSeparated (rest.drop 2)) := by
  unfold isMarker
  split
  · rename_i d e tail
    simp [List.isPrefixOf, Bool.beq_comm (a := mark), Bool.and_assoc]
  · rename_i hshort
    have hnot : [mark, mark].isPrefixOf rest = false := by
      rw [Bool.eq_false_iff]
      intro hword
      obtain ⟨tail, htail⟩ := List.isPrefixOf_iff_prefix.mp hword
      exact hshort mark mark tail htail.symm
    rw [List.isPrefixOf_cons_cons, hnot, Bool.and_false, Bool.false_and]

theorem marker?_bytes {mark : Char} (hmark : mark.toNat < 128) (front rest : Text) :
    marker? (bytes (front ++ mark :: rest)) mark (width front) = some (isMarker mark mark rest) := by
  rw [marker?, cut?_tail]
  show some (_ && separatedAt _ _) = _
  rw [isPrefixOf_bytes (by simpa using hmark), isMarker_eq_isPrefixOf]
  cases hword : [mark, mark, mark].isPrefixOf (mark :: rest) with
  | false => rfl
  | true =>
    obtain ⟨tail, htail⟩ := List.isPrefixOf_iff_prefix.mp hword
    have hsep := separatedAt_bytes (front ++ [mark, mark, mark]) tail
    rw [width_append, width_cons, width_cons, width_cons, width_nil, utf8Size_of_lt hmark,
      List.append_assoc, htail] at hsep
    rw [hsep, ← (List.cons.inj htail).2]
    rfl

theorem utf8Size_of_isLayout {c : Char} (h : isLayout c = true) : c.utf8Size = 1 := by
  obtain ⟨b, -, hencode⟩ := utf8EncodeChar_of_isLayout h
  rw [← String.length_utf8EncodeChar, hencode]
  rfl

theorem pastBlanks_bytes (front back : Text) :
    pastBlanks (bytes (front ++ back)) (width front) = width front + width (back.takeWhile isBlank) := by
  induction back generalizing front with
  | nil =>
    rw [pastBlanks, dif_neg (by rw [any_peek coarse_isBlank]; simp)]
    rfl
  | cons c back ih =>
    rw [pastBlanks]
    cases hc : isBlank c with
    | false =>
      rw [dif_neg (by rw [any_peek coarse_isBlank]; simp [hc]), List.takeWhile_cons_of_neg (by simp [hc])]
      rfl
    | true =>
      have hsize : c.utf8Size = 1 := utf8Size_of_isLayout (by simp [isLayout, hc])
      have hrest := ih (front ++ [c])
      rw [List.append_assoc, List.singleton_append, width_append, width_cons, width_nil, hsize] at hrest
      rw [dif_pos (by rw [any_peek coarse_isBlank]; simp [hc]), hrest, List.takeWhile_cons_of_pos hc,
        width_cons, hsize]
      omega

theorem width_spaces (text : Text) : width (text.takeWhile (· == ' ')) = leadingSpaces text := by
  induction text with
  | nil => rfl
  | cons c text ih =>
    rw [leadingSpaces, List.takeWhile_cons]
    split
    · rename_i hc
      rw [beq_iff_eq.mp hc, width_cons, List.length_cons, ih, leadingSpaces, Nat.add_comm]
      rfl
    · rfl

theorem leadingSpaceBytes_bytes (text : Text) : leadingSpaceBytes (bytes text) = leadingSpaces text := by
  rw [leadingSpaceBytes, takeWhile_bytes (coarse_beq (by decide)), length_bytes, width_spaces]

/-- A line is nothing but spaces whether it is measured in bytes or in characters. -/
theorem leadingSpaces_eq_width_iff (text : Text) :
    leadingSpaces text = width text ↔ leadingSpaces text = text.length := by
  have hle := length_le_width text
  have hspaces : leadingSpaces text ≤ text.length := (List.takeWhile_prefix _).length_le
  constructor
  · omega
  · intro hlength
    rw [← width_spaces, (List.takeWhile_prefix _).eq_of_length hlength]

end Scanner

end YamlStyle
