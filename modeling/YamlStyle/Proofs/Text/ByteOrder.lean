import Mathlib.Data.String.Basic
import YamlStyle.Proofs.Text.Boundary

/-!
# Texts compare by their bytes

Names are compared code point by code point, and that is the order of their bytes: UTF-8 keeps the
order (`bytes_lt_bytes_iff`).

A code point is written as a **lead byte** and some continuation bytes of six bits each. The lead byte
says how many, more for greater code points, and holds what the continuation bytes leave over. So a
greater code point has a greater lead byte, or else the same one and greater continuation bytes.
-/

set_option autoImplicit false

namespace YamlStyle

/-! ## One character -/

/-- The lowest six bits of a number, `count` times, in bytes. -/
def continuation : Nat → Nat → List UInt8
  | 0, _ => []
  | count + 1, v => continuation count (v / 64) ++ [UInt8.ofNat (v % 64 + 128)]

/-- How many continuation bytes a code point has. -/
def continuations (v : Nat) : Nat :=
  if v ≤ 127 then 0 else if v ≤ 2047 then 1 else if v ≤ 65535 then 2 else 3

/-- The lead byte of a code point. -/
def lead (v : Nat) : Nat :=
  if v ≤ 127 then v
  else if v ≤ 2047 then v / 64 + 192
  else if v ≤ 65535 then v / 4096 + 224
  else v / 262144 + 240

theorem val_lt (c : Char) : c.val.toNat < 0x110000 := by
  rcases c.valid with h | ⟨-, h⟩
  · exact Nat.lt_trans h (by decide)
  · exact h

theorem utf8EncodeChar_eq (c : Char) :
    String.utf8EncodeChar c =
      UInt8.ofNat (lead c.val.toNat) :: continuation (continuations c.val.toNat) c.val.toNat := by
  have hc := val_lt c
  unfold String.utf8EncodeChar lead continuations
  generalize c.val.toNat = v at hc
  dsimp only
  split_ifs with h₁ h₂ h₃
  · rfl
  · rw [Nat.mod_eq_of_lt (by omega)]
    rfl
  · rw [Nat.mod_eq_of_lt (by omega)]
    simp [continuation]
  · rw [Nat.mod_eq_of_lt (by omega)]
    simp [continuation, Nat.div_div_eq_div_mul]

theorem lead_lt {v : Nat} (h : v < 0x110000) : lead v < 256 := by
  unfold lead
  split_ifs <;> omega

theorem cons_ofNat_lt {a b : Nat} (h : a < b) (hb : b < 256) (s t : List UInt8) :
    UInt8.ofNat a :: s < UInt8.ofNat b :: t := by
  refine List.cons_lt_cons_iff.mpr (Or.inl ?_)
  rw [UInt8.lt_iff_toNat_lt, UInt8.toNat_ofNat', UInt8.toNat_ofNat', Nat.mod_eq_of_lt (by omega),
    Nat.mod_eq_of_lt (by omega)]
  exact h

/-- What the lead bytes do not decide, the continuation bytes do. -/
theorem lead_lt_lead {m n : Nat} (h : m < n) :
    lead m < lead n ∨ lead m = lead n ∧ continuations m = continuations n ∧
      m / 64 ^ continuations m = n / 64 ^ continuations m := by
  unfold lead continuations
  split_ifs <;> simp only [Nat.reducePow, Nat.div_one, true_and] <;> omega

theorem continuation_lt {count m n : Nat} (h : m < n) (hleft : m / 64 ^ count = n / 64 ^ count)
    (s t : List UInt8) : continuation count m ++ s < continuation count n ++ t := by
  induction count generalizing m n s t with
  | zero =>
    simp only [Nat.pow_zero, Nat.div_one] at hleft
    omega
  | succ count ih =>
    rw [continuation, continuation, List.append_assoc, List.append_assoc]
    rcases Nat.lt_or_eq_of_le (Nat.div_le_div_right (c := 64) (Nat.le_of_lt h)) with hlt | heq
    · refine ih hlt ?_ _ _
      rwa [Nat.div_div_eq_div_mul, Nat.div_div_eq_div_mul, Nat.mul_comm, ← Nat.pow_succ]
    · rw [heq]
      refine List.append_left_lt (cons_ofNat_lt ?_ ?_ s t) <;> omega

theorem utf8EncodeChar_append_lt {c d : Char} (h : c < d) (s t : List UInt8) :
    String.utf8EncodeChar c ++ s < String.utf8EncodeChar d ++ t := by
  have hval : c.val.toNat < d.val.toNat := h
  rw [utf8EncodeChar_eq, utf8EncodeChar_eq, List.cons_append, List.cons_append]
  rcases lead_lt_lead hval with hlt | ⟨hlead, hcount, hleft⟩
  · exact cons_ofNat_lt hlt (lead_lt (val_lt d)) _ _
  · rw [hlead, ← hcount]
    exact List.cons_lt_cons_iff.mpr (Or.inr ⟨rfl, continuation_lt hval hleft s t⟩)

/-! ## Texts -/

theorem bytes_lt_bytes {s t : Text} (h : s < t) : bytes s < bytes t := by
  induction s generalizing t with
  | nil =>
    cases t with
    | nil => exact absurd h (List.not_lt_nil _)
    | cons d t =>
      rw [bytes, bytes, List.flatMap_cons, utf8EncodeChar_eq]
      exact List.nil_lt_cons _ _
  | cons c s ih =>
    cases t with
    | nil => exact absurd h (List.not_lt_nil _)
    | cons d t =>
      rw [bytes, bytes, List.flatMap_cons, List.flatMap_cons]
      rcases List.cons_lt_cons_iff.mp h with hlt | ⟨rfl, hlt⟩
      · exact utf8EncodeChar_append_lt hlt _ _
      · exact List.append_left_lt (ih hlt)

/-- **UTF-8 keeps the order of texts.** -/
theorem bytes_lt_bytes_iff {s t : Text} : bytes s < bytes t ↔ s < t := by
  refine ⟨fun h => ?_, bytes_lt_bytes⟩
  rcases lt_trichotomy s t with hlt | rfl | hgt
  · exact hlt
  · exact absurd h (List.lt_irrefl _)
  · exact absurd h (List.lt_asymm (bytes_lt_bytes hgt))

/-- Names are in the order of their bytes. -/
theorem bytes_le_bytes_iff {a b : String} : bytes a.toList ≤ bytes b.toList ↔ a ≤ b :=
  (not_congr bytes_lt_bytes_iff).trans (not_congr String.lt_iff_toList_lt).symm

end YamlStyle
