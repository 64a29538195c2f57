import Mathlib.Data.List.Basic
import Mathlib.Data.List.Pairwise

/-!
# Stable sorting

Two kinds of things are sorted in this library: raw tokens by where they start, and problems by where
they are reported. Both orders leave ties, and what happens to ties can be seen from outside. This
module says what a stable sort is in terms that need no algorithm: it is sorted, and **among things
that tie, it is the list it was made from**.

The two together determine the result (`eq_of_sorted`), and so every law of sorting is proved by
comparing ties. Taking things out commutes with sorting (`filter_mergeSort`), and a thing added at the
end of a list is found behind everything it ties with (`exists_mergeSort_concat`).
-/

set_option autoImplicit false

namespace YamlStyle

universe u

variable {α : Type u} {le : α → α → Bool}

/-- A comparison one can sort by. -/
structure Sortable (le : α → α → Bool) : Prop where
  trans : ∀ a b c, le a b = true → le b c = true → le a c = true
  total : ∀ a b, (le a b || le b a) = true

/-- Whether neither of two things comes before the other. -/
def ties (le : α → α → Bool) (a b : α) : Bool := le a b && le b a

namespace Sortable

variable (h : Sortable le)

include h

theorem refl (a : α) : le a a = true := by
  simpa using h.total a a

theorem le_of_not_le {a b : α} (hab : le a b = false) : le b a = true := by
  simpa [hab] using h.total a b

theorem ties_self (a : α) : ties le a a = true := by
  simp [ties, h.refl a]

/-- Things that tie with the same thing tie. -/
theorem ties_of_ties {a b c : α} (hb : ties le a b = true) (hc : ties le a c = true) :
    ties le b c = true := by
  simp only [ties, Bool.and_eq_true] at hb hc ⊢
  exact ⟨h.trans _ _ _ hb.2 hc.1, h.trans _ _ _ hc.2 hb.1⟩

/-! ## What a sort does to ties -/

/-- Among things that all tie, a sort changes nothing. -/
theorem filter_mergeSort_of_ties {p : α → Bool}
    (hp : ∀ a b, p a = true → p b = true → le a b = true) (l : List α) :
    (l.mergeSort le).filter p = l.filter p := by
  have hsorted : (l.filter p).Pairwise fun a b => le a b = true := by
    refine List.pairwise_of_forall_mem_list fun a ha b hb => ?_
    exact hp a b (List.mem_filter.mp ha).2 (List.mem_filter.mp hb).2
  have hsublist : (l.filter p).Sublist (l.mergeSort le) :=
    List.sublist_mergeSort h.trans h.total hsorted List.filter_sublist
  have hkept : (l.filter p).Sublist ((l.mergeSort le).filter p) := by
    simpa using hsublist.filter p
  have hlength : (l.filter p).length = ((l.mergeSort le).filter p).length :=
    ((List.mergeSort_perm l le).filter p).length_eq.symm
  exact (hkept.eq_of_length hlength).symm

theorem filter_ties_mergeSort (a : α) (l : List α) :
    (l.mergeSort le).filter (ties le a) = l.filter (ties le a) := by
  refine h.filter_mergeSort_of_ties (fun b c hb hc => ?_) l
  have hties := h.ties_of_ties hb hc
  simp only [ties, Bool.and_eq_true] at hties
  exact hties.1

/-- The first of a sorted list comes before whatever is in another list with the same ties. -/
theorem le_head {a b : α} {s t : List α} (hs : (a :: s).Pairwise fun x y => le x y = true)
    (hties : ∀ c, (a :: s).filter (ties le c) = (b :: t).filter (ties le c)) : le a b = true := by
  have hmem : b ∈ (a :: s).filter (ties le b) := by
    rw [hties b]
    exact List.mem_filter.mpr ⟨List.mem_cons_self, h.ties_self b⟩
  rcases List.mem_cons.mp (List.mem_filter.mp hmem).1 with rfl | hb
  · exact h.refl b
  · exact List.rel_of_pairwise_cons hs hb

/-- **Ties determine a sorted list.** -/
theorem eq_of_sorted {s t : List α} (hs : s.Pairwise fun x y => le x y = true)
    (ht : t.Pairwise fun x y => le x y = true)
    (hties : ∀ a, s.filter (ties le a) = t.filter (ties le a)) : s = t := by
  induction s generalizing t with
  | nil =>
    cases t with
    | nil => rfl
    | cons b t =>
      have hb := hties b
      rw [List.filter_cons_of_pos (h.ties_self b)] at hb
      exact absurd hb (by simp)
  | cons a s ih =>
    cases t with
    | nil =>
      have ha := hties a
      rw [List.filter_cons_of_pos (h.ties_self a)] at ha
      exact absurd ha (by simp)
    | cons b t =>
      -- Each head comes before the other, so they tie, and both are the first of that tie.
      have hab : ties le a b = true := by
        rw [ties, h.le_head hs hties, h.le_head ht fun c => (hties c).symm]
        rfl
      have hheads := hties a
      rw [List.filter_cons_of_pos (h.ties_self a), List.filter_cons_of_pos hab] at hheads
      obtain rfl : a = b := (List.cons.inj hheads).1
      refine congrArg (a :: ·) (ih hs.tail ht.tail fun c => ?_)
      have hc := hties c
      by_cases hca : ties le c a = true
      · rw [List.filter_cons_of_pos hca, List.filter_cons_of_pos hca] at hc
        exact (List.cons.inj hc).2
      · rwa [List.filter_cons_of_neg hca, List.filter_cons_of_neg hca] at hc

/-! ## Taking out and adding -/

/-- Taking things out of a sorted list is sorting what is left. -/
theorem filter_mergeSort (p : α → Bool) (l : List α) :
    (l.mergeSort le).filter p = (l.filter p).mergeSort le := by
  refine h.eq_of_sorted ((List.pairwise_mergeSort h.trans h.total l).filter p)
    (List.pairwise_mergeSort h.trans h.total _) fun a => ?_
  rw [h.filter_ties_mergeSort a (l.filter p), List.filter_comm, h.filter_ties_mergeSort,
    List.filter_comm]

/-- A sorted list divides into what comes no later than a thing and what comes after it. -/
theorem exists_split {s : List α} (hs : s.Pairwise fun x y => le x y = true) (a : α) :
    ∃ front back, s = front ++ back ∧ (∀ x ∈ front, le x a = true) ∧ ∀ x ∈ back, le x a = false := by
  induction s with
  | nil => exact ⟨[], [], rfl, by simp, by simp⟩
  | cons b s ih =>
    obtain ⟨hb, hs⟩ := List.pairwise_cons.mp hs
    cases hba : le b a with
    | true =>
      obtain ⟨front, back, rfl, hfront, hback⟩ := ih hs
      refine ⟨b :: front, back, rfl, fun x hx => ?_, hback⟩
      rcases List.mem_cons.mp hx with rfl | hx
      · exact hba
      · exact hfront x hx
    | false =>
      refine ⟨[], b :: s, rfl, by simp, fun x hx => ?_⟩
      rcases List.mem_cons.mp hx with rfl | hx
      · exact hba
      · refine Bool.eq_false_iff.mpr fun hxa => ?_
        rw [h.trans _ _ _ (hb x hx) hxa] at hba
        exact absurd hba (by simp)

/-- **A thing added at the end** is found behind what it ties with, and nothing else moves. -/
theorem exists_mergeSort_concat (l : List α) (a : α) :
    ∃ front back, (l ++ [a]).mergeSort le = front ++ a :: back ∧ l.mergeSort le = front ++ back ∧
      ∀ x ∈ back, le x a = false := by
  have hsorted := List.pairwise_mergeSort h.trans h.total l
  obtain ⟨front, back, hsplit, hfront, hback⟩ := h.exists_split hsorted a
  refine ⟨front, back, ?_, hsplit, hback⟩
  rw [hsplit] at hsorted
  obtain ⟨hs₁, hs₂, hcross⟩ := List.pairwise_append.mp hsorted
  refine h.eq_of_sorted (List.pairwise_mergeSort h.trans h.total _) ?_ fun c => ?_
  · refine List.pairwise_append.mpr ⟨hs₁, List.pairwise_cons.mpr ⟨fun x hx => ?_, hs₂⟩, ?_⟩
    · exact h.le_of_not_le (hback x hx)
    · intro x hx y hy
      rcases List.mem_cons.mp hy with rfl | hy
      · exact hfront x hx
      · exact hcross x hx y hy
  · have hties := h.filter_ties_mergeSort c l
    rw [hsplit, List.filter_append] at hties
    rw [h.filter_ties_mergeSort, List.filter_append, ← hties, List.filter_append, List.append_assoc]
    congr 1
    by_cases hca : ties le c a = true
    · -- What ties with the new thing is in front of it, as what is behind comes later.
      have hnone : back.filter (ties le c) = [] := by
        refine List.filter_eq_nil_iff.mpr fun x hx hcx => ?_
        have hxa := h.ties_of_ties hcx hca
        simp [ties, hback x hx] at hxa
      simp [hnone, hca]
    · simp [hca]

end Sortable

end YamlStyle
