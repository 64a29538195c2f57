import YamlStyle.Text

/-!
# Byte offsets and the texts around them

An offset is a **boundary** of a text exactly if the text can be written as `front ++ back` and the
offset is the width of `front`. Everything that is said with offsets about a document is said here
with fronts and backs: `splitAt?`, `slice?`, `isBoundary` and `floorBoundary` each answer from such a
decomposition, and no proof further on has to follow their recursion over bytes.

The bytes themselves appear once. `bytes` is the encoding of a text, and the width of a text is how
many there are.
-/

set_option autoImplicit false

namespace YamlStyle

theorem width_pos {text : Text} (h : text ≠ []) : 0 < width text := by
  cases text with
  | nil => exact absurd rfl h
  | cons c cs =>
    have := c.utf8Size_pos
    rw [width_cons]
    omega

theorem eq_nil_of_width_eq_zero {text : Text} (h : width text = 0) : text = [] := by
  cases text with
  | nil => rfl
  | cons c cs => exact absurd h (Nat.pos_iff_ne_zero.mp (width_pos (by simp)))

/-! ## Dividing -/

theorem splitAt?_width (front back : Text) :
    splitAt? (front ++ back) (width front) = some (front, back) := by
  induction front with
  | nil => cases back <;> rfl
  | cons c cs ih =>
    have hpos := c.utf8Size_pos
    obtain ⟨n, hn⟩ : ∃ n, width (c :: cs) = n + 1 := ⟨width (c :: cs) - 1, by simp; omega⟩
    have hle : c.utf8Size ≤ n + 1 := by rw [← hn, width_cons]; omega
    have hrest : n + 1 - c.utf8Size = width cs := by rw [← hn, width_cons]; omega
    rw [hn, List.cons_append, splitAt?, if_pos hle, hrest, ih]
    rfl

theorem eq_append_of_splitAt? {text front back : Text} {offset : Nat}
    (h : splitAt? text offset = some (front, back)) :
    text = front ++ back ∧ offset = width front := by
  fun_induction splitAt? text offset generalizing front back with
  | case1 cs =>
    obtain ⟨rfl, rfl⟩ := Prod.mk.inj (Option.some.inj h)
    exact ⟨rfl, rfl⟩
  | case2 n => simp at h
  | case3 c cs n hle ih =>
    obtain ⟨⟨front', back'⟩, hsplit, heq⟩ := Option.map_eq_some_iff.mp h
    obtain ⟨rfl, rfl⟩ := Prod.mk.inj heq
    obtain ⟨rfl, hwidth⟩ := ih hsplit
    exact ⟨rfl, by rw [width_cons]; omega⟩
  | case4 c cs n hle => simp at h

theorem dropBytes?_width (front back : Text) :
    dropBytes? (front ++ back) (width front) = some back := by
  rw [dropBytes?_eq_splitAt?, splitAt?_width]
  rfl

theorem isBoundary_width (front back : Text) : isBoundary (front ++ back) (width front) = true := by
  rw [isBoundary, dropBytes?_width]
  rfl

theorem isBoundary_iff {text : Text} {offset : Nat} :
    isBoundary text offset = true ↔ ∃ front back, text = front ++ back ∧ offset = width front := by
  refine ⟨fun h => ?_, ?_⟩
  · rw [isBoundary, dropBytes?_eq_splitAt?, Option.isSome_map, Option.isSome_iff_exists] at h
    obtain ⟨⟨front, back⟩, hsplit⟩ := h
    exact ⟨front, back, eq_append_of_splitAt? hsplit⟩
  · rintro ⟨front, back, rfl, rfl⟩
    exact isBoundary_width front back

theorem slice?_width (front piece back : Text) :
    slice? (front ++ (piece ++ back)) (width front) (width front + width piece) = some piece := by
  rw [slice?, if_pos (Nat.le_add_right _ _), dropBytes?_width]
  show ((splitAt? (piece ++ back) (width front + width piece - width front)).bind
    fun p => some p.1) = some piece
  rw [Nat.add_sub_cancel_left, splitAt?_width]
  rfl

theorem eq_append_of_slice? {text piece : Text} {start stop : Nat}
    (h : slice? text start stop = some piece) :
    ∃ front back, text = front ++ (piece ++ back) ∧ start = width front ∧
      stop = width front + width piece := by
  rw [slice?] at h
  split at h
  · rename_i hle
    rw [dropBytes?_eq_splitAt?] at h
    cases hstart : splitAt? text start with
    | none => simp [hstart] at h
    | some division =>
      obtain ⟨front, tail⟩ := division
      obtain ⟨rfl, hfront⟩ := eq_append_of_splitAt? hstart
      cases hstop : splitAt? tail (stop - start) with
      | none => simp [hstart, hstop] at h
      | some division =>
        obtain ⟨middle, back⟩ := division
        obtain ⟨rfl, hmiddle⟩ := eq_append_of_splitAt? hstop
        obtain rfl : middle = piece := by simpa [hstart, hstop] using h
        exact ⟨front, back, rfl, hfront, by omega⟩
  · simp at h

/-! ## Comparing -/

theorem le_width_of_isBoundary {text : Text} {offset : Nat} (h : isBoundary text offset = true) :
    offset ≤ width text := by
  obtain ⟨front, back, rfl, rfl⟩ := isBoundary_iff.mp h
  rw [width_append]
  exact Nat.le_add_right _ _

/-- Of two fronts of one text, the narrower is the beginning of the wider. -/
theorem exists_append_of_width_le {front back front' back' : Text}
    (h : front ++ back = front' ++ back') (hle : width front ≤ width front') :
    ∃ middle, front' = front ++ middle ∧ back = middle ++ back' := by
  rcases List.append_eq_append_iff.mp h with hwider | ⟨middle, rfl, rfl⟩
  · exact hwider
  · rw [width_append] at hle
    obtain rfl : middle = [] := eq_nil_of_width_eq_zero (by omega)
    exact ⟨[], by simp, by simp⟩

/-- Two fronts of one text that are equally wide are the same. -/
theorem append_inj_of_width_eq {front back front' back' : Text} (h : front ++ back = front' ++ back')
    (hwidth : width front = width front') : front = front' ∧ back = back' := by
  obtain ⟨middle, rfl, rfl⟩ := exists_append_of_width_le h (Nat.le_of_eq hwidth)
  obtain rfl : middle = [] := by
    apply eq_nil_of_width_eq_zero
    rw [width_append] at hwidth
    omega
  simp

/-- There is something between two offsets exactly if they are boundaries and in order. -/
theorem isSome_slice?_iff {text : Text} {start stop : Nat} :
    (slice? text start stop).isSome = true ↔
      start ≤ stop ∧ isBoundary text start = true ∧ isBoundary text stop = true := by
  refine ⟨fun h => ?_, ?_⟩
  · obtain ⟨piece, hpiece⟩ := Option.isSome_iff_exists.mp h
    obtain ⟨front, back, rfl, rfl, rfl⟩ := eq_append_of_slice? hpiece
    refine ⟨Nat.le_add_right _ _, isBoundary_width front _, ?_⟩
    rw [← width_append, ← List.append_assoc]
    exact isBoundary_width _ back
  · rintro ⟨hle, hstart, hstop⟩
    obtain ⟨front, back, rfl, rfl⟩ := isBoundary_iff.mp hstart
    obtain ⟨front', back', htext, rfl⟩ := isBoundary_iff.mp hstop
    obtain ⟨piece, rfl, rfl⟩ := exists_append_of_width_le htext hle
    rw [width_append, slice?_width]
    rfl

/-! ## Pulling back to a boundary -/

theorem floorBoundary_width (front back : Text) :
    floorBoundary (front ++ back) (width front) = width front := by
  induction front with
  | nil =>
    cases back with
    | nil => rfl
    | cons c cs =>
      have hpos := c.utf8Size_pos
      rw [List.nil_append, floorBoundary, width_nil, if_neg (by omega)]
  | cons c cs ih =>
    rw [List.cons_append, floorBoundary, width_cons, if_pos (Nat.le_add_right _ _),
      Nat.add_sub_cancel_left, ih]

theorem floorBoundary_le (text : Text) (offset : Nat) : floorBoundary text offset ≤ offset := by
  induction text generalizing offset with
  | nil => exact Nat.zero_le _
  | cons c cs ih =>
    have hrest := ih (offset - c.utf8Size)
    rw [floorBoundary]
    split <;> omega

theorem isBoundary_floorBoundary (text : Text) (offset : Nat) :
    isBoundary text (floorBoundary text offset) = true := by
  rw [isBoundary_iff]
  induction text generalizing offset with
  | nil => exact ⟨[], [], rfl, rfl⟩
  | cons c cs ih =>
    rw [floorBoundary]
    split
    · obtain ⟨front, back, hcs, hwidth⟩ := ih (offset - c.utf8Size)
      exact ⟨c :: front, back, by rw [List.cons_append, ← hcs], by rw [hwidth, width_cons]⟩
    · exact ⟨[], c :: cs, rfl, rfl⟩

/-- No boundary up to an offset is left out. -/
theorem le_floorBoundary {text : Text} {boundary offset : Nat} (h : isBoundary text boundary = true)
    (hle : boundary ≤ offset) : boundary ≤ floorBoundary text offset := by
  obtain ⟨front, back, rfl, rfl⟩ := isBoundary_iff.mp h
  clear h
  induction front generalizing offset with
  | nil => exact Nat.zero_le _
  | cons c cs ih =>
    rw [width_cons] at hle
    have hrest : width cs ≤ floorBoundary (cs ++ back) (offset - c.utf8Size) :=
      ih (by omega)
    rw [List.cons_append, floorBoundary, if_pos (by omega), width_cons]
    omega

/-! ## Bytes -/

/-- The UTF-8 encoding of a text. -/
def bytes (text : Text) : List UInt8 := text.flatMap String.utf8EncodeChar

@[simp] theorem bytes_append (s t : Text) : bytes (s ++ t) = bytes s ++ bytes t :=
  List.flatMap_append

@[simp] theorem length_bytes (text : Text) : (bytes text).length = width text := by
  induction text with
  | nil => rfl
  | cons c cs ih =>
    rw [width_cons, ← ih]
    simp [bytes]

end YamlStyle
