import Mathlib.Data.List.TakeWhile
import YamlStyle.Proofs.Scanner.QuotedBytes

/-!
# Looking at a text byte by byte

Whoever reads bytes and knows only ASCII takes every byte for a character, the one with the same number.
Where the text has an ASCII character, that is right. Anywhere else it is wrong, but then the byte and
the character are both beyond ASCII (`Blurs`). A test that makes no difference between characters beyond
ASCII does not notice (`Blurs.eq`), and all tests of this library are of this kind. So a stretch of bytes
on which such a test holds ends between two characters, and is the stretch of characters on which it
holds (`takeWhile_bytes`).
-/

set_option autoImplicit false

namespace YamlStyle

/-- A byte taken for a character. -/
def byteChar (b : UInt8) : Char := Char.ofNat b.toNat

theorem toNat_byteChar (b : UInt8) : (byteChar b).toNat = b.toNat := by
  have hvalid : b.toNat.isValidChar := Or.inl (Nat.lt_trans b.toNat_lt (by decide))
  rw [byteChar, Char.ofNat, dif_pos hvalid]
  rfl

/-- Two characters that are the same, or both beyond ASCII. -/
def Blurs (seen c : Char) : Prop := seen = c ∨ 128 ≤ seen.toNat ∧ 128 ≤ c.toNat

theorem utf8EncodeChar_of_lt {c : Char} (h : c.toNat < 128) :
    ∃ b, String.utf8EncodeChar c = [b] ∧ byteChar b = c := by
  have hbyte : (UInt8.ofNat c.toNat).toNat = c.toNat := by
    rw [UInt8.toNat_ofNat', Nat.mod_eq_of_lt (by omega)]
  refine ⟨UInt8.ofNat c.toNat, ?_, ?_⟩
  · have hlead : lead c.val.toNat = c.toNat := if_pos (Nat.le_of_lt_succ h)
    have hnone : continuations c.val.toNat = 0 := if_pos (Nat.le_of_lt_succ h)
    rw [utf8EncodeChar_eq, hlead, hnone]
    rfl
  · apply Char.toNat_inj.mp
    rw [toNat_byteChar, hbyte]

theorem utf8Size_of_lt {c : Char} (h : c.toNat < 128) : c.utf8Size = 1 := by
  obtain ⟨b, hencode, -⟩ := utf8EncodeChar_of_lt h
  rw [← String.length_utf8EncodeChar, hencode]
  rfl

/-- Beyond ASCII every byte is. -/
theorem le_of_mem_utf8EncodeChar {c : Char} (h : 128 ≤ c.toNat) {b : UInt8}
    (hb : b ∈ String.utf8EncodeChar c) : 128 ≤ (byteChar b).toNat := by
  rw [toNat_byteChar]
  by_contra hlt
  have hval : c.toNat = b.toNat := val_eq_of_mem_utf8EncodeChar hb (Nat.lt_of_not_le hlt)
  omega

theorem blurs_of_mem {c : Char} {b : UInt8} (hb : b ∈ String.utf8EncodeChar c) :
    Blurs (byteChar b) c := by
  by_cases hc : c.toNat < 128
  · obtain ⟨b', hencode, hchar⟩ := utf8EncodeChar_of_lt hc
    rw [hencode] at hb
    rw [List.mem_singleton.mp hb]
    exact Or.inl hchar
  · have hle := Nat.le_of_not_lt hc
    exact Or.inr ⟨le_of_mem_utf8EncodeChar hle hb, hle⟩

/-! ## Tests -/

/-- A test that makes no difference between characters beyond ASCII. -/
def Coarse {α : Type} (test : Char → α) : Prop :=
  ∀ c d, 128 ≤ c.toNat → 128 ≤ d.toNat → test c = test d

theorem Blurs.eq {α : Type} {test : Char → α} {seen c : Char} (h : Blurs seen c)
    (htest : Coarse test) : test seen = test c := by
  rcases h with rfl | ⟨hseen, hc⟩
  · rfl
  · exact htest seen c hseen hc

theorem beq_of_le {c a : Char} (hc : 128 ≤ c.toNat) (ha : a.toNat < 128) : (c == a) = false := by
  apply beq_eq_false_iff_ne.mpr
  rintro rfl
  omega

theorem isBlank_of_le {c : Char} (h : 128 ≤ c.toNat) : isBlank c = false := by
  simp [isBlank, beq_of_le h]

theorem isBreak_of_le {c : Char} (h : 128 ≤ c.toNat) : isBreak c = false := by
  simp [isBreak, beq_of_le h]

theorem isFlowIndicator_of_le {c : Char} (h : 128 ≤ c.toNat) : Scanner.isFlowIndicator c = false := by
  simp [Scanner.isFlowIndicator, beq_of_le h]

theorem coarse_isBlank : Coarse isBlank := by
  intro c d hc hd
  rw [isBlank_of_le hc, isBlank_of_le hd]

theorem coarse_isBreak : Coarse isBreak := by
  intro c d hc hd
  rw [isBreak_of_le hc, isBreak_of_le hd]

theorem coarse_isFlowIndicator : Coarse Scanner.isFlowIndicator := by
  intro c d hc hd
  rw [isFlowIndicator_of_le hc, isFlowIndicator_of_le hd]

theorem coarse_beq {a : Char} (ha : a.toNat < 128) : Coarse (· == a) := by
  intro c d hc hd
  exact (beq_of_le hc ha).trans (beq_of_le hd ha).symm

theorem Coarse.comp {α β : Type} {test : Char → α} (h : Coarse test) (f : α → β) :
    Coarse fun c => f (test c) := by
  intro c d hc hd
  exact congrArg f (h c d hc hd)

theorem Coarse.or {p q : Char → Bool} (hp : Coarse p) (hq : Coarse q) : Coarse fun c => p c || q c := by
  intro c d hc hd
  exact congrArg₂ (· || ·) (hp c d hc hd) (hq c d hc hd)

/-! ## Bytes of a text -/

theorem getElem?_bytes (front back : Text) (i : Nat) :
    (bytes (front ++ back))[width front + i]? = (bytes back)[i]? := by
  rw [bytes_append, List.getElem?_append_right (by simp), length_bytes, Nat.add_sub_cancel_left]

/-- The byte at the start of a character. -/
theorem exists_first_byte (c : Char) (rest : Text) :
    ∃ b ∈ String.utf8EncodeChar c, (bytes (c :: rest))[0]? = some b := by
  rw [bytes_cons, utf8EncodeChar_eq]
  exact ⟨_, List.mem_cons_self, rfl⟩

theorem takeWhile_bytes {test : Char → Bool} (htest : Coarse test) (text : Text) :
    (bytes text).takeWhile (fun b => test (byteChar b)) = bytes (text.takeWhile test) := by
  induction text with
  | nil => rfl
  | cons c text ih =>
    have hbytes : ∀ b ∈ String.utf8EncodeChar c, test (byteChar b) = test c :=
      fun b hb => (blurs_of_mem hb).eq htest
    rw [bytes_cons]
    cases hc : test c with
    | true =>
      rw [List.takeWhile_append_of_pos fun b hb => (hbytes b hb).trans hc, ih,
        List.takeWhile_cons_of_pos hc, bytes_cons]
    | false =>
      rw [List.takeWhile_cons_of_neg (by simp [hc])]
      rw [utf8EncodeChar_eq] at hbytes ⊢
      have hlead := hbytes _ List.mem_cons_self
      rw [List.cons_append, List.takeWhile_cons_of_neg (by rw [hlead, hc]; simp)]
      rfl

end YamlStyle
