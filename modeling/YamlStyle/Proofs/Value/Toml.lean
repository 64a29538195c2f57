import YamlStyle.Proofs.Value.Readers
import YamlStyle.Value.Toml

/-!
# TOML makes orderly values

A TOML file is one tree to which every line adds, so what has to be kept is a property of the tree under
construction: what its entries have become by now is an orderly table (`Sound`). An array of tables
becomes a list, so nothing has to be known about the tables in it.

Each way to add to the tree keeps it sound, by the recursion of the way itself, and so do the lines of a
file, one after the other (`sound_lines?`).
-/

set_option autoImplicit false

namespace YamlStyle

namespace Toml

open Value (Orderly)

variable {v : Value} {rest : Text} {entries entries' : Table Node}

/-! ## Tables under construction -/

theorem entryValues_insert (entries : Table Node) (name : String) (n : Node) :
    entryValues (entries.insert name n) = Table.insert name n.toValue (entryValues entries) := by
  induction entries with
  | nil => rfl
  | cons e entries ih =>
    obtain ⟨k, m⟩ := e
    rw [Table.insert, entryValues, Table.insert]
    split_ifs with hlt heq
    · rfl
    · rfl
    · rw [entryValues, ih]

theorem get?_entryValues (entries : Table Node) (name : String) :
    Table.get? (entryValues entries) name = (entries.get? name).map Node.toValue := by
  induction entries with
  | nil => rfl
  | cons e entries ih =>
    obtain ⟨k, m⟩ := e
    rw [entryValues, Table.get?, Table.get?, ih]
    split_ifs with hk
    · rfl
    · rfl

/-- The table that some entries have become is orderly. -/
def Sound (entries : Table Node) : Prop := Orderly (.table (entryValues entries))

theorem sound_nil : Sound [] := .empty

/-- Arrays are lists, whatever is in them. -/
theorem orderly_tables (last : List (String × Node)) (earlier : List Value) :
    (Node.tables last earlier).toValue.Orderly := .other rfl

namespace Sound

theorem insert (h : Sound entries) (name : String) {n : Node} (hn : n.toValue.Orderly) :
    Sound (entries.insert name n) := by
  rw [Sound, entryValues_insert]
  exact Orderly.insert h name hn

theorem entry (h : Sound entries) {name : String} {n : Node}
    (hget : entries.get? name = some n) : n.toValue.Orderly := by
  have hvalue : Table.get? (entryValues entries) name = some n.toValue := by
    rw [get?_entryValues, hget]
    rfl
  exact Orderly.entry h hvalue

theorem setKey (hv : v.Orderly) {path : List String} (h : Sound entries)
    (hset : setKey v path entries = some entries') : Sound entries' := by
  fun_induction Toml.setKey v path entries generalizing entries' with
  | case1 | case2 | case6 | case7 | case9 => exact absurd hset (by simp)
  | case3 k entries hhas =>
    obtain rfl := Option.some.inj hset
    exact h.insert k hv
  | case4 k rest entries hrest hget ih =>
    obtain ⟨es, hes, rfl⟩ := Option.map_eq_some_iff.mp hset
    exact h.insert k (ih sound_nil hes)
  | case5 k rest entries hrest origin es hget htakes ih =>
    obtain ⟨es', hes, rfl⟩ := Option.map_eq_some_iff.mp hset
    exact h.insert k (ih (h.entry hget) hes)
  | case8 k rest entries hrest last earlier hget hlong ih =>
    obtain ⟨last', hlast, rfl⟩ := Option.map_eq_some_iff.mp hset
    exact h.insert k (orderly_tables last' earlier)

theorem changeEntry {change : Option Node → Option Node}
    (hchange : ∀ old new, change old = some new → (∀ n ∈ old, n.toValue.Orderly) →
      new.toValue.Orderly)
    {path : List String} (h : Sound entries)
    (hnew : changeEntry change path entries = some entries') : Sound entries' := by
  fun_induction Toml.changeEntry change path entries generalizing entries' with
  | case1 | case6 => exact absurd hnew (by simp)
  | case2 k entries =>
    obtain ⟨n, hn, rfl⟩ := Option.map_eq_some_iff.mp hnew
    exact h.insert k (hchange _ n hn fun old hold => h.entry hold)
  | case3 k rest entries hrest hget ih =>
    obtain ⟨es, hes, rfl⟩ := Option.map_eq_some_iff.mp hnew
    exact h.insert k (ih sound_nil hes)
  | case4 k rest entries hrest origin es hget ih =>
    obtain ⟨es', hes, rfl⟩ := Option.map_eq_some_iff.mp hnew
    exact h.insert k (ih (h.entry hget) hes)
  | case5 k rest entries hrest last earlier hget ih =>
    obtain ⟨last', hlast, rfl⟩ := Option.map_eq_some_iff.mp hnew
    exact h.insert k (orderly_tables last' earlier)

theorem changeTable {change : Table Node → Option (Table Node)}
    (hchange : ∀ {old new}, Sound old → change old = some new → Sound new)
    {path : List String} (h : Sound entries)
    (hnew : changeTable change path entries = some entries') : Sound entries' := by
  fun_induction Toml.changeTable change path entries generalizing entries' with
  | case1 entries => exact hchange h hnew
  | case2 k rest entries origin es hget ih =>
    obtain ⟨es', hes, rfl⟩ := Option.map_eq_some_iff.mp hnew
    exact h.insert k (ih (h.entry hget) hes)
  | case3 k rest entries last earlier hget ih =>
    obtain ⟨last', hlast, rfl⟩ := Option.map_eq_some_iff.mp hnew
    exact h.insert k (orderly_tables last' earlier)
  | case4 => exact absurd hnew (by simp)

theorem openTable {path : List String} (h : Sound entries)
    (hopen : openTable path entries = some entries') : Sound entries' := by
  refine h.changeEntry ?_ hopen
  intro old new hnew hold
  split at hnew
  · obtain rfl := Option.some.inj hnew
    exact sound_nil
  · rename_i es
    obtain rfl := Option.some.inj hnew
    exact hold (.table .passed es) rfl
  · exact absurd hnew (by simp)

theorem addTable {path : List String} (h : Sound entries)
    (hadd : addTable path entries = some entries') : Sound entries' := by
  refine h.changeEntry ?_ hadd
  intro old new hnew hold
  split at hnew
  · obtain rfl := Option.some.inj hnew
    exact orderly_tables _ _
  · obtain rfl := Option.some.inj hnew
    exact orderly_tables _ _
  · exact absurd hnew (by simp)

end Sound

/-! ## Values -/

theorem isTable_wordValue? {word : Text} (h : wordValue? word = some v) : v.isTable = false := by
  rw [wordValue?] at h
  split at h
  · obtain rfl := Option.some.inj h
    rfl
  · split at h
    · obtain rfl := Option.some.inj h
      rfl
    · split at h
      · obtain rfl := Option.some.inj h
        rfl
      · obtain ⟨-, h⟩ := Option.ite_none_right_eq_some.mp h
        obtain rfl := Option.some.inj h
        rfl

/-- A date is a table of one entry. -/
theorem orderly_word? {text : Text} (h : word? text = some (v, rest)) : v.Orderly := by
  rw [word?] at h
  split at h
  · exact orderly_of_some (.insert .empty dateTimeKey (.other rfl)) h
  · obtain ⟨w, hw, h⟩ := Option.map_eq_some_iff.mp h
    obtain ⟨rfl, -⟩ := Prod.mk.inj h
    exact .other (isTable_wordValue? hw)

theorem sound_pairs {fuel : Nat}
    (hvalue : ∀ {depth : Nat} {text rest : Text} {v : Value},
      value? fuel depth text = some (v, rest) → v.Orderly)
    (hpairs : ∀ {depth : Nat} {entries entries' : Table Node} {text rest : Text}, Sound entries →
      pairs? fuel depth entries text = some (entries', rest) → Sound entries')
    {depth : Nat} {text : Text} (hentries : Sound entries)
    (h : pairs? (fuel + 1) depth entries text = some (entries', rest)) : Sound entries' := by
  simp only [pairs?, Option.bind_eq_bind, Option.bind_eq_some_iff] at h
  obtain ⟨⟨path, after⟩, -, h⟩ := h
  split at h
  · obtain ⟨⟨v, after⟩, hv, h⟩ := Option.bind_eq_some_iff.mp h
    obtain ⟨more, hmore, h⟩ := Option.bind_eq_some_iff.mp h
    have hsound : Sound more := hentries.setKey (hvalue hv) hmore
    split at h
    · exact hpairs hsound h
    · obtain ⟨rfl, -⟩ := Prod.mk.inj (Option.some.inj h)
      exact hsound
    · exact absurd h (by simp)
  · exact absurd h (by simp)

theorem orderly_value {fuel : Nat}
    (hpairs : ∀ {depth : Nat} {entries entries' : Table Node} {text rest : Text}, Sound entries →
      pairs? fuel depth entries text = some (entries', rest) → Sound entries')
    {depth : Nat} {text : Text} (h : value? (fuel + 1) depth text = some (v, rest)) :
    v.Orderly := by
  unfold value? at h
  dsimp only at h
  split at h
  · exact absurd h (by simp)
  · exact absurd h (by simp)
  · exact orderly_of_map (fun vs _ _ => .other rfl) h
  · split at h
    · exact orderly_of_some .empty h
    · exact orderly_of_map (fun es after hes => hpairs sound_nil hes) h
  · exact orderly_of_map (fun s _ _ => .other rfl) h
  · exact orderly_of_map (fun s _ _ => .other rfl) h
  · exact orderly_word? h

theorem orderly_readers (fuel : Nat) :
    (∀ {depth : Nat} {text rest : Text} {v : Value},
      value? fuel depth text = some (v, rest) → v.Orderly) ∧
    ∀ {depth : Nat} {entries entries' : Table Node} {text rest : Text}, Sound entries →
      pairs? fuel depth entries text = some (entries', rest) → Sound entries' := by
  induction fuel with
  | zero =>
    constructor
    · intro depth text rest v h
      exact absurd h (by simp [value?])
    · intro depth entries entries' text rest _ h
      exact absurd h (by simp [pairs?])
  | succ fuel ih => exact ⟨orderly_value ih.2, sound_pairs ih.1 ih.2⟩

/-! ## Files -/

/-- What a line says can be taken up. -/
def Entry.Sound : Entry → Prop
  | .assignment _ v => v.Orderly
  | _ => True

theorem sound_of_line {fuel : Nat} {text : Text} {line : Entry}
    (h : entry? fuel text = some (line, rest)) : line.Sound := by
  unfold entry? at h
  split at h
  · simp only [Option.bind_eq_bind, Option.bind_eq_some_iff] at h
    obtain ⟨⟨path, after⟩, -, h⟩ := h
    split at h
    · obtain ⟨after, -, h⟩ := Option.bind_eq_some_iff.mp h
      obtain ⟨rfl, -⟩ := Prod.mk.inj (Option.some.inj h)
      trivial
    · exact absurd h (by simp)
  · simp only [Option.bind_eq_bind, Option.bind_eq_some_iff] at h
    obtain ⟨⟨path, after⟩, -, h⟩ := h
    split at h
    · obtain ⟨after, -, h⟩ := Option.bind_eq_some_iff.mp h
      obtain ⟨rfl, -⟩ := Prod.mk.inj (Option.some.inj h)
      trivial
    · exact absurd h (by simp)
  · simp only [Option.bind_eq_bind, Option.bind_eq_some_iff] at h
    obtain ⟨⟨path, after⟩, -, h⟩ := h
    split at h
    · obtain ⟨⟨v, after⟩, hv, h⟩ := Option.bind_eq_some_iff.mp h
      obtain ⟨after, -, h⟩ := Option.bind_eq_some_iff.mp h
      obtain ⟨rfl, -⟩ := Prod.mk.inj (Option.some.inj h)
      exact (orderly_readers fuel).1 hv
    · exact absurd h (by simp)

theorem sound_add? {state state' : State} {line : Entry} (hline : line.Sound)
    (h : Sound state.root) (hadd : state.add? line = some state') : Sound state'.root := by
  cases line with
  | table path =>
    obtain ⟨root, hroot, rfl⟩ := Option.map_eq_some_iff.mp hadd
    exact h.openTable hroot
  | element path =>
    obtain ⟨root, hroot, rfl⟩ := Option.map_eq_some_iff.mp hadd
    exact h.addTable hroot
  | assignment path v =>
    obtain ⟨root, hroot, rfl⟩ := Option.map_eq_some_iff.mp hadd
    exact h.changeTable (fun hold hnew => hold.setKey hline hnew) hroot

theorem sound_lines? {fuel : Nat} {state state' : State} {text : Text} (h : Sound state.root)
    (hlines : lines? fuel state text = some state') : Sound state'.root := by
  induction fuel generalizing state text with
  | zero => exact absurd hlines (by simp [lines?])
  | succ fuel ih =>
    unfold lines? at hlines
    split at hlines
    · obtain rfl := Option.some.inj hlines
      exact h
    · simp only [Option.bind_eq_bind, Option.bind_eq_some_iff] at hlines
      obtain ⟨⟨line, after⟩, hline, next, hnext, hlines⟩ := hlines
      exact ih (sound_add? (sound_of_line hline) h hnext) hlines

theorem orderly_parse? {text : Text} (h : parse? text = some v) : v.Orderly := by
  obtain ⟨state, hstate, rfl⟩ := Option.map_eq_some_iff.mp h
  exact sound_lines? sound_nil hstate

end Toml

end YamlStyle
