import YamlStyle.Proofs.Text.Boundary
import YamlStyle.Token

/-!
# What a raw token spells

A raw token is two offsets, and the text it **spells** is the piece of the document between them, if
there is one: `slice?` looks it up, and `Spells` says where it stands. The two say the same.
-/

set_option autoImplicit false

namespace YamlStyle

/-- A raw token covers exactly the characters `piece` of a text. -/
def RawToken.Spells (t : RawToken) (text piece : Text) : Prop :=
  ∃ front back, text = front ++ (piece ++ back) ∧ t.start = width front ∧
    t.stop = width front + width piece

theorem RawToken.Spells.slice?_eq {t : RawToken} {text piece : Text} (h : t.Spells text piece) :
    slice? text t.start t.stop = some piece := by
  obtain ⟨front, back, rfl, hstart, hstop⟩ := h
  rw [hstart, hstop, slice?_width]

theorem RawToken.Spells.isBoundary {t : RawToken} {text piece : Text} (h : t.Spells text piece) :
    isBoundary text t.start = true ∧ isBoundary text t.stop = true := by
  obtain ⟨front, back, rfl, hstart, hstop⟩ := h
  refine ⟨isBoundary_iff.mpr ⟨front, piece ++ back, rfl, hstart⟩,
    isBoundary_iff.mpr ⟨front ++ piece, back, ?_, ?_⟩⟩
  · rw [List.append_assoc]
  · rw [hstop, width_append]

theorem RawToken.spells_of_slice? {t : RawToken} {text piece : Text}
    (h : slice? text t.start t.stop = some piece) : t.Spells text piece :=
  eq_append_of_slice? h

/-- A mark at a boundary spells the empty text. -/
theorem RawToken.spells_mark {text : Text} (kind : TokenKind) {offset : Nat}
    (h : isBoundary text offset = true) : (⟨kind, offset, offset⟩ : RawToken).Spells text [] := by
  obtain ⟨front, back, htext, hoffset⟩ := isBoundary_iff.mp h
  exact ⟨front, back, htext, hoffset, hoffset⟩

end YamlStyle
