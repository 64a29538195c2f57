import Mathlib.Data.String.Basic
import YamlStyle.Proofs.Table.Lookup

/-!
# Tables in order

A table lists its entries in increasing order of their names. `Lookup` gets by without that, as long as
no name has two entries; here it is the invariant. Every table that is built by `insert` keeps it
(`Sorted.insert`), and it is what makes two tables with the same answers the same table
(`Sorted.ext`), so that a table can be described by what it answers.

`insertAll` is where this is needed: laid over a table, another one answers for every name that it
stores, and the table below answers for the rest.
-/

set_option autoImplicit false

namespace YamlStyle

universe u

namespace Table

variable {α : Type u}

/-- The names of the entries increase. -/
def Sorted (table : Table α) : Prop := table.keys.Pairwise (· < ·)

instance (table : Table α) : Decidable table.Sorted := inferInstanceAs (Decidable (List.Pairwise ..))

theorem sorted_cons {name : String} {value : α} {rest : Table α} :
    Sorted ((name, value) :: rest) ↔ (∀ other ∈ rest.keys, name < other) ∧ Sorted rest :=
  List.pairwise_cons

/-- The names behind the first entry are other names. -/
theorem get?_of_forall_lt {name : String} {table : Table α}
    (h : ∀ other ∈ table.keys, name < other) : table.get? name = none := by
  rw [get?_eq_none_iff]
  intro hmem
  exact lt_irrefl name (h name hmem)

namespace Sorted

variable {table other : Table α} {name : String} {value : α}

theorem nodup (h : Sorted table) : table.keys.Nodup :=
  List.Pairwise.imp (fun hlt => ne_of_lt hlt) h

theorem insert (h : Sorted table) (name : String) (value : α) : Sorted (table.insert name value) := by
  induction table with
  | nil => exact List.pairwise_singleton _ _
  | cons entry rest ih =>
    obtain ⟨k, v⟩ := entry
    obtain ⟨hbelow, hrest⟩ := sorted_cons.mp h
    rw [Table.insert]
    split_ifs with hlt heq
    · refine sorted_cons.mpr ⟨?_, h⟩
      intro other hother
      rcases List.mem_cons.mp hother with rfl | hother
      · exact hlt
      · exact lt_trans hlt (hbelow other hother)
    · subst heq
      exact sorted_cons.mpr ⟨hbelow, hrest⟩
    · -- The new name is behind the first one, wherever in the rest it finds its place.
      have hbehind : k < name := lt_of_le_of_ne (not_lt.mp hlt) fun hq => heq hq.symm
      refine sorted_cons.mpr ⟨?_, ih hrest⟩
      intro other hother
      rcases mem_keys_insert.mp hother with rfl | hother
      · exact hbehind
      · exact hbelow other hother

theorem insertAll (h : Sorted table) (entries : List (String × α)) :
    Sorted (table.insertAll entries) := by
  induction entries generalizing table with
  | nil => exact h
  | cons entry entries ih => exact ih (h.insert entry.1 entry.2)

/-- No name that is stored is before the first one. -/
theorem head_le {k : String} {v : α} {rest : Table α} (h : Sorted ((k, v) :: rest))
    (hget : (Table.get? ((k, v) :: rest) name).isSome = true) : k ≤ name := by
  by_cases hk : k = name
  · exact le_of_eq hk
  · rw [get?, if_neg hk] at hget
    apply le_of_lt
    apply (sorted_cons.mp h).1
    by_contra hmem
    rw [get?_eq_none_iff.mpr hmem] at hget
    exact absurd hget (by simp)

/-- **A table is what it answers.** -/
theorem ext (h : Sorted table) (hother : Sorted other)
    (hget : ∀ name, table.get? name = other.get? name) : table = other := by
  induction table generalizing other with
  | nil =>
    cases other with
    | nil => rfl
    | cons entry rest =>
      have hfirst := hget entry.1
      simp [get?] at hfirst
  | cons entry rest ih =>
    obtain ⟨k, v⟩ := entry
    cases other with
    | nil =>
      have hfirst := hget k
      simp [get?] at hfirst
    | cons entry' rest' =>
      obtain ⟨k', v'⟩ := entry'
      -- Each first name is stored in the other table, and so it is not before the other first name.
      have hle : k' ≤ k := hother.head_le (by rw [← hget]; simp [get?])
      have hge : k ≤ k' := h.head_le (by rw [hget]; simp [get?])
      obtain rfl : k = k' := le_antisymm hge hle
      have hvalue := hget k
      simp only [get?, if_true, Option.some.injEq] at hvalue
      subst hvalue
      obtain ⟨hbelow, hrest⟩ := sorted_cons.mp h
      obtain ⟨hbelow', hrest'⟩ := sorted_cons.mp hother
      have htail : ∀ name, Table.get? rest name = Table.get? rest' name := by
        intro name
        by_cases hname : k = name
        · subst hname
          rw [get?_of_forall_lt hbelow, get?_of_forall_lt hbelow']
        · have hboth := hget name
          rwa [get?, get?, if_neg hname, if_neg hname] at hboth
      rw [ih hrest hrest' htail]

end Sorted

/-- Laid over a table, another one answers first. -/
theorem get?_insertAll {top : Table α} (htop : top.keys.Nodup) (base : Table α) (name : String) :
    (base.insertAll top).get? name = (top.get? name).or (base.get? name) := by
  induction top generalizing base with
  | nil => rfl
  | cons entry top ih =>
    obtain ⟨k, v⟩ := entry
    obtain ⟨hfresh, htop⟩ := List.nodup_cons.mp htop
    show ((base.insert k v).insertAll top).get? name = _
    rw [ih htop, get?_insert, get?]
    by_cases hk : k = name
    · subst hk
      rw [get?_eq_none_iff.mpr hfresh]
      simp
    · rw [if_neg hk, if_neg fun hq => hk hq.symm]

end Table

end YamlStyle
