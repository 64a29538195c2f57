import Mathlib.Logic.Basic
import YamlStyle.Table

/-!
# What a table answers

`get?` reads the first entry of a name and `erase` drops the first entry of a name, so the two fit
together only where a name has **one** entry. Nothing about the order of the entries is needed for
that: `insert` answers for its own name whatever the table looked like, and `insertIfNew` never adds
a second entry for a name. The order is what a reader of the whole table sees, and no lemma here is
about it.
-/

set_option autoImplicit false

namespace YamlStyle

universe u

namespace Table

variable {α : Type u}

theorem get?_eq_none_iff {table : Table α} {name : String} :
    table.get? name = none ↔ name ∉ table.keys := by
  induction table with
  | nil => simp [get?, keys]
  | cons entry rest ih =>
    obtain ⟨k, v⟩ := entry
    simp only [get?, keys, List.map_cons, List.mem_cons, not_or]
    by_cases hk : k = name
    · simp [hk]
    · rw [if_neg hk, ih]
      exact ⟨fun h => ⟨fun hq => hk hq.symm, h⟩, fun h => h.2⟩

theorem mem_of_get?_eq_some {table : Table α} {name : String} {value : α}
    (h : table.get? name = some value) : (name, value) ∈ table := by
  induction table with
  | nil => simp [get?] at h
  | cons entry rest ih =>
    obtain ⟨k, v⟩ := entry
    simp only [get?] at h
    by_cases hk : k = name
    · rw [if_pos hk] at h
      obtain rfl := Option.some.inj h
      subst hk
      exact List.mem_cons_self
    · rw [if_neg hk] at h
      exact List.mem_cons_of_mem _ (ih h)

/-- A name has one entry, so whatever entry of it there is, is the one that is read. -/
theorem get?_eq_some_iff {table : Table α} (hnd : table.keys.Nodup) {name : String} {value : α} :
    table.get? name = some value ↔ (name, value) ∈ table := by
  refine ⟨mem_of_get?_eq_some, fun h => ?_⟩
  induction table with
  | nil => simp at h
  | cons entry rest ih =>
    obtain ⟨k, v⟩ := entry
    obtain ⟨hfresh, hnd⟩ := List.nodup_cons.mp hnd
    rcases List.mem_cons.mp h with heq | hmem
    · obtain ⟨rfl, rfl⟩ := Prod.mk.inj heq
      simp [get?]
    · have hk : k ≠ name := by
        rintro rfl
        exact hfresh (List.mem_map.mpr ⟨(k, value), hmem, rfl⟩)
      rw [get?, if_neg hk]
      exact ih hnd hmem

theorem get?_insert (table : Table α) (name other : String) (value : α) :
    (table.insert name value).get? other = if other = name then some value else table.get? other := by
  induction table with
  | nil =>
    simp only [insert, get?]
    by_cases h : name = other
    · simp [h]
    · simp [h, Ne.symm h]
  | cons entry rest ih =>
    obtain ⟨k, v⟩ := entry
    simp only [insert]
    split
    · by_cases h : name = other
      · simp [get?, h]
      · simp [get?, h, Ne.symm h]
    · split
      · rename_i heq
        subst heq
        by_cases h : name = other
        · simp [get?, h]
        · simp [get?, h, Ne.symm h]
      · rename_i hne
        by_cases h : k = other
        · have hname : other ≠ name := fun hq => hne (hq.symm.trans h.symm)
          simp [get?, h, hname]
        · simp only [get?, if_neg h, ih]

/-- The value a name has counts; a new one is taken only where there is none. -/
theorem get?_insertIfNew (table : Table α) (name other : String) (value : α) :
    (table.insertIfNew name value).get? other =
      if other = name then some ((table.get? name).getD value) else table.get? other := by
  unfold insertIfNew
  cases hget : table.get? name with
  | none => simp only [get?_insert, Option.getD_none]
  | some v =>
    by_cases h : other = name
    · simp [h, hget]
    · simp [h]

theorem get?_erase_of_ne {name other : String} (h : other ≠ name) (table : Table α) :
    (table.erase name).get? other = table.get? other := by
  induction table with
  | nil => rfl
  | cons entry rest ih =>
    obtain ⟨k, v⟩ := entry
    simp only [erase]
    by_cases hk : k = name
    · subst hk
      simp [get?, Ne.symm h]
    · rw [if_neg hk]
      simp only [get?, ih]

theorem keys_erase (table : Table α) (name : String) :
    (table.erase name).keys = table.keys.erase name := by
  induction table with
  | nil => rfl
  | cons entry rest ih =>
    obtain ⟨k, v⟩ := entry
    simp only [keys] at ih
    by_cases hk : k = name
    · simp [erase, keys, hk]
    · simp [erase, keys, hk, ih]

theorem get?_erase_self {table : Table α} (hnd : table.keys.Nodup) (name : String) :
    (table.erase name).get? name = none := by
  rw [get?_eq_none_iff, keys_erase]
  exact hnd.not_mem_erase

theorem nodup_keys_erase {table : Table α} (hnd : table.keys.Nodup) (name : String) :
    (table.erase name).keys.Nodup := by
  rw [keys_erase]
  exact hnd.erase name

theorem mem_keys_insert {table : Table α} {name other : String} {value : α} :
    other ∈ (table.insert name value).keys ↔ other = name ∨ other ∈ table.keys := by
  have h : (table.insert name value).get? other ≠ none ↔ other ∈ (table.insert name value).keys :=
    get?_eq_none_iff.not_left
  rw [← h, get?_insert]
  by_cases hname : other = name
  · simp [hname]
  · rw [if_neg hname]
    simp [hname, get?_eq_none_iff]

/-- A name that is new to a table finds one place in it. -/
theorem nodup_keys_insert {table : Table α} {name : String} {value : α} (hnd : table.keys.Nodup)
    (hfresh : name ∉ table.keys) : (table.insert name value).keys.Nodup := by
  induction table with
  | nil => simp [insert, keys]
  | cons entry rest ih =>
    obtain ⟨k, v⟩ := entry
    obtain ⟨hk, hrest⟩ := List.nodup_cons.mp hnd
    have hne : name ≠ k := fun hq => hfresh (hq ▸ List.mem_cons_self)
    have hnew : name ∉ keys rest := fun hq => hfresh (List.mem_cons_of_mem _ hq)
    simp only [insert, if_neg hne]
    split
    · exact List.nodup_cons.mpr ⟨hfresh, hnd⟩
    · refine List.nodup_cons.mpr ⟨fun hq => ?_, ih hrest hnew⟩
      rcases mem_keys_insert.mp hq with heq | hmem
      · exact hne heq.symm
      · exact hk hmem

theorem nodup_keys_insertIfNew {table : Table α} (hnd : table.keys.Nodup) (name : String)
    (value : α) : (table.insertIfNew name value).keys.Nodup := by
  unfold insertIfNew
  cases hget : table.get? name with
  | none => exact nodup_keys_insert hnd (get?_eq_none_iff.mp hget)
  | some v => exact hnd

end Table

end YamlStyle
