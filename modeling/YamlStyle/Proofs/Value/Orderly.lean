import Mathlib.Data.List.DropRight
import Mathlib.Data.List.Induction
import YamlStyle.Proofs.Table.Sorted
import YamlStyle.Value.Merge

/-!
# Orderly values

A table is a list of entries, and nothing in its type keeps a name from having two of them. In an
**orderly** value no table does, at any depth: the names of each increase. Readers make orderly values,
and laying one over another keeps them so (`Orderly.overlay`).

On orderly tables `overlay` can be described by what it answers (`get?_overlay`): for every name, what
the tables say about it is laid over each other, and the names do not meet. So a stack of tables
answers for a name with the pile of what its members say (`get?_overlayAll`), and all that remains to
be known is what becomes of a pile. If the value on top is no table, it is the only one that counts;
if it is one, those below count as far down as there are tables (`Counts`).
-/

set_option autoImplicit false

namespace YamlStyle

namespace Value

/-- Whether a value is a table. -/
def isTable : Value → Bool
  | .table _ => true
  | _ => false

/-- The names of every table in a value increase. What is inside lists does not matter here, since
lists are only ever replaced as a whole. -/
inductive Orderly : Value → Prop
  | table {entries : Table Value} : entries.Sorted →
      (∀ name v, entries.get? name = some v → Orderly v) → Orderly (.table entries)
  | other {v : Value} : v.isTable = false → Orderly v

namespace Orderly

variable {entries : Table Value} {v : Value}

theorem sorted (h : Orderly (.table entries)) : entries.Sorted := by
  cases h with
  | table hsorted _ => exact hsorted
  | other hother => exact absurd hother (by simp [isTable])

theorem entry (h : Orderly (.table entries)) {name : String} (hget : entries.get? name = some v) :
    Orderly v := by
  cases h with
  | table _ hentries => exact hentries name v hget
  | other hother => exact absurd hother (by simp [isTable])

theorem get? (h : Orderly v) {name : String} {w : Value} (hget : v.get? name = some w) :
    Orderly w := by
  cases v with
  | table entries => exact h.entry hget
  | null | bool | int | float | char | str | list => exact absurd hget (by simp [Value.get?])

theorem empty : Orderly (.table []) :=
  .table List.Pairwise.nil fun name v hget => absurd hget (by simp [Table.get?])

theorem insert (h : Orderly (.table entries)) (name : String) (hv : Orderly v) :
    Orderly (.table (entries.insert name v)) := by
  refine .table (h.sorted.insert name v) ?_
  intro other w hget
  rw [Table.get?_insert] at hget
  split at hget
  · obtain rfl := Option.some.inj hget
    exact hv
  · exact h.entry hget

theorem insertAll (h : Orderly (.table entries)) {more : List (String × Value)}
    (hmore : ∀ e ∈ more, Orderly e.2) : Orderly (.table (entries.insertAll more)) := by
  induction more generalizing entries with
  | nil => exact h
  | cons e more ih =>
    have hfirst := h.insert e.1 (hmore e List.mem_cons_self)
    exact ih hfirst fun e' he' => hmore e' (List.mem_cons_of_mem e he')

theorem ofList {more : List (String × Value)} (hmore : ∀ e ∈ more, Orderly e.2) :
    Orderly (.table (Table.ofList more)) :=
  empty.insertAll hmore

end Orderly

/-! ## Laying over -/

theorem overlay_of_not_isTable (base : Value) {top : Value} (h : top.isTable = false) :
    overlay base top = top := by
  cases top with
  | table entries => exact absurd h (by simp [isTable])
  | null | bool | int | float | char | str | list => rw [overlay]; simp

theorem overlay_of_base_not_isTable {base top : Value} (h : base.isTable = false) :
    overlay base top = top := by
  cases top with
  | table entries =>
    cases base with
    | table _ => exact absurd h (by simp [isTable])
    | null | bool | int | float | char | str | list => rw [overlay]; simp
  | null | bool | int | float | char | str | list => exact overlay_of_not_isTable base rfl

/-- A value laid over another one, or over nothing. -/
def atop : Option Value → Value → Value
  | some base, top => overlay base top
  | none, top => top

theorem overlayEntries_cons (base : Table Value) (name : String) (v : Value)
    (top : List (String × Value)) :
    overlayEntries base ((name, v) :: top) =
      overlayEntries (base.insert name (atop (base.get? name) v)) top := by
  rw [overlayEntries]
  cases base.get? name <;> rfl

theorem get?_overlayEntries {top : Table Value} (htop : top.keys.Nodup) (base : Table Value)
    (name : String) :
    Table.get? (overlayEntries base top) name =
      match top.get? name with
      | some v => some (atop (base.get? name) v)
      | none => base.get? name := by
  induction top generalizing base with
  | nil => rfl
  | cons e top ih =>
    obtain ⟨k, v⟩ := e
    obtain ⟨hfresh, htop⟩ := List.nodup_cons.mp htop
    rw [overlayEntries_cons, ih htop, Table.get?_insert, Table.get?]
    by_cases hk : k = name
    · subst hk
      rw [Table.get?_eq_none_iff.mpr hfresh]
      simp
    · rw [if_neg hk, if_neg fun hq => hk hq.symm]

mutual

theorem Orderly.overlay : ∀ {top base : Value}, Orderly base → Orderly top →
    Orderly (Value.overlay base top)
  | .table top, base, hbase, htop => by
    cases base with
    | table entries =>
      rw [Value.overlay]
      exact orderly_overlayEntries hbase fun e he =>
        htop.entry ((Table.get?_eq_some_iff htop.sorted.nodup).mpr he)
    | null | bool | int | float | char | str | list =>
      rw [overlay_of_base_not_isTable rfl]
      exact htop
  | .null, base, _, htop | .bool _, base, _, htop | .int _, base, _, htop
  | .float _, base, _, htop | .char _, base, _, htop | .str _, base, _, htop
  | .list _, base, _, htop => by
    rw [overlay_of_not_isTable base rfl]
    exact htop

theorem orderly_overlayEntries : ∀ {top : List (String × Value)} {base : Table Value},
    Orderly (.table base) → (∀ e ∈ top, Orderly e.2) → Orderly (.table (overlayEntries base top))
  | [], base, hbase, _ => hbase
  | (k, v) :: top, base, hbase, htop => by
    have hv : Orderly v := htop (k, v) List.mem_cons_self
    have hmerged : Orderly (atop (base.get? k) v) := by
      cases hget : base.get? k with
      | none => exact hv
      | some w => exact Orderly.overlay (hbase.entry hget) hv
    rw [overlayEntries_cons]
    exact orderly_overlayEntries (hbase.insert k hmerged) fun e he =>
      htop e (List.mem_cons_of_mem _ he)

end

theorem Orderly.overlayAll {base : Value} (hbase : Orderly base) {layers : List Value}
    (hlayers : ∀ layer ∈ layers, Orderly layer) : Orderly (Value.overlayAll base layers) := by
  induction layers generalizing base with
  | nil => exact hbase
  | cons layer layers ih =>
    have hfirst := hbase.overlay (hlayers layer List.mem_cons_self)
    exact ih hfirst fun layer' h' => hlayers layer' (List.mem_cons_of_mem layer h')

/-! ## Piles -/

theorem overlayAll_concat (base : Value) (layers : List Value) (top : Value) :
    overlayAll base (layers ++ [top]) = overlay (overlayAll base layers) top := by
  rw [overlayAll, List.foldl_append]
  rfl

/-- Values laid over each other, the first at the bottom. -/
def pile : List Value → Option Value
  | [] => none
  | v :: vs => some (overlayAll v vs)

theorem pile_concat (vs : List Value) (v : Value) : pile (vs ++ [v]) = some (atop (pile vs) v) := by
  cases vs with
  | nil => rfl
  | cons w vs =>
    rw [List.cons_append, pile, overlayAll_concat]
    rfl

/-- Of a pile with no table on top, nothing else counts. -/
theorem pile_concat_of_not_isTable (vs : List Value) {v : Value} (h : v.isTable = false) :
    pile (vs ++ [v]) = some v := by
  rw [pile_concat]
  cases pile vs with
  | none => rfl
  | some w => rw [atop, overlay_of_not_isTable w h]

/-- A pile of tables is cut off at the first value below that is none. -/
theorem pile_append_of_not_isTable {below : List Value}
    (hbelow : ∀ w ∈ below.getLast?, w.isTable = false) (v : Value) (vs : List Value) :
    pile (below ++ v :: vs) = pile (v :: vs) := by
  have hatop : atop (pile below) v = v := by
    rcases List.eq_nil_or_concat below with rfl | ⟨rest, w, rfl⟩
    · rfl
    · have hw : w.isTable = false := hbelow w (by simp)
      rw [List.concat_eq_append, pile_concat_of_not_isTable rest hw]
      exact overlay_of_base_not_isTable hw
  induction vs using List.reverseRecOn with
  | nil => rw [pile_concat, hatop]; rfl
  | append_singleton vs u ih =>
    rw [← List.cons_append, ← List.append_assoc, pile_concat, ih, ← pile_concat]

theorem exists_eq_table {v : Value} (h : v.isTable = true) : ∃ entries, v = .table entries := by
  cases v with
  | table entries => exact ⟨entries, rfl⟩
  | null | bool | int | float | char | str | list => exact absurd h (by simp [isTable])

theorem isTable_overlay (base : Value) {top : Value} (h : top.isTable = true) :
    (overlay base top).isTable = true := by
  obtain ⟨entries, rfl⟩ := exists_eq_table h
  cases hbase : base.isTable with
  | true =>
    obtain ⟨below, rfl⟩ := exists_eq_table hbase
    rw [overlay]
    rfl
  | false => rw [overlay_of_base_not_isTable hbase, h]

theorem isTable_overlayAll {base : Value} (hbase : base.isTable = true) {layers : List Value}
    (hlayers : ∀ layer ∈ layers, layer.isTable = true) :
    (overlayAll base layers).isTable = true := by
  induction layers generalizing base with
  | nil => exact hbase
  | cons layer layers ih =>
    have hfirst := isTable_overlay base (hlayers layer List.mem_cons_self)
    exact ih hfirst fun layer' h' => hlayers layer' (List.mem_cons_of_mem layer h')

theorem get?_overlay {base top : Value} (hbase : base.isTable = true) (htop : top.isTable = true)
    (horderly : top.Orderly) (name : String) :
    (overlay base top).get? name =
      match top.get? name with
      | some v => some (atop (base.get? name) v)
      | none => base.get? name := by
  obtain ⟨entries, rfl⟩ := exists_eq_table hbase
  obtain ⟨more, rfl⟩ := exists_eq_table htop
  rw [overlay]
  exact get?_overlayEntries horderly.sorted.nodup entries name

/-- What is said under a name, the lowest first. -/
def given (stack : List Value) (name : String) : List Value := stack.filterMap (·.get? name)

theorem given_concat (stack : List Value) (top : Value) (name : String) :
    given (stack ++ [top]) name = given stack name ++ (top.get? name).toList := by
  rw [given, List.filterMap_append]
  cases hget : top.get? name <;> simp [given, hget]

/-- **A stack of tables answers with a pile**: of what its members say under a name. -/
theorem get?_overlayAll {base : Value} {layers : List Value}
    (hstack : ∀ layer ∈ base :: layers, layer.isTable = true ∧ layer.Orderly) (name : String) :
    (overlayAll base layers).get? name = pile (given (base :: layers) name) := by
  induction layers using List.reverseRecOn with
  | nil =>
    rw [given]
    cases hget : base.get? name with
    | none => simp [overlayAll, hget, pile]
    | some v => simp [overlayAll, hget, pile]
  | append_singleton layers top ih =>
    have hbelow : ∀ layer ∈ base :: layers, layer.isTable = true ∧ layer.Orderly := by
      intro layer hlayer
      exact hstack layer (List.mem_append_left [top] hlayer)
    have htop := hstack top (by simp)
    have htable := isTable_overlayAll (hbelow base List.mem_cons_self).1
      fun layer hlayer => (hbelow layer (List.mem_cons_of_mem base hlayer)).1
    rw [overlayAll_concat, get?_overlay htable htop.1 htop.2, ih hbelow, ← List.cons_append,
      given_concat]
    cases top.get? name with
    | none => simp
    | some v => exact (pile_concat _ v).symm

/-! ## The value that counts -/

/-- Which of the values given under a name counts, the lowest first: the last, unless it is a table on
top of a table. -/
inductive Counts : List Value → Value → Prop
  | last {below : List Value} {v : Value} :
      v.isTable = false ∨ (∀ w ∈ below.getLast?, w.isTable = false) → Counts (below ++ [v]) v
  /-- Tables on top of each other are one table with all their names. -/
  | united {below tables : List Value} {entries : Table Value} :
      (∀ w ∈ below.getLast?, w.isTable = false) → (∀ t ∈ tables, t.isTable = true) →
      2 ≤ tables.length → entries.Sorted →
      (∀ name, entries.get? name = pile (given tables name)) → Counts (below ++ tables) (.table entries)

variable {vs : List Value} {v : Value}

/-- A pile of orderly tables is the table with all their names. -/
theorem pile_tables {tables : List Value} (hne : tables ≠ [])
    (htables : ∀ t ∈ tables, t.isTable = true ∧ t.Orderly) :
    ∃ entries : Table Value, pile tables = some (.table entries) ∧ Orderly (.table entries) ∧
      ∀ name, entries.get? name = pile (given tables name) := by
  cases tables with
  | nil => exact absurd rfl hne
  | cons t ts =>
    have htable : (overlayAll t ts).isTable = true :=
      isTable_overlayAll (htables t List.mem_cons_self).1
        fun t' ht' => (htables t' (List.mem_cons_of_mem t ht')).1
    have horderly : (overlayAll t ts).Orderly :=
      (htables t List.mem_cons_self).2.overlayAll
        fun t' ht' => (htables t' (List.mem_cons_of_mem t ht')).2
    have hget := get?_overlayAll htables
    rw [pile]
    obtain ⟨entries, hentries⟩ := exists_eq_table htable
    rw [hentries] at horderly hget ⊢
    exact ⟨entries, rfl, horderly, hget⟩

theorem Counts.pile_eq (h : Counts vs v) (hvs : ∀ w ∈ vs, w.Orderly) : pile vs = some v := by
  cases h with
  | @last below v hv =>
    rcases hv with hv | hbelow
    · exact pile_concat_of_not_isTable below hv
    · rw [pile_append_of_not_isTable hbelow]
      rfl
  | @united below tables entries hbelow htables hlength hsorted hget =>
    have hne : tables ≠ [] := by
      rintro rfl
      exact absurd hlength (by simp)
    obtain ⟨entries', hpile, horderly, hget'⟩ := pile_tables hne
      fun t ht => ⟨htables t ht, hvs t (List.mem_append_right below ht)⟩
    have heq : entries = entries' := hsorted.ext horderly.sorted fun name => by rw [hget, hget']
    obtain ⟨t, ts, rfl⟩ := List.exists_cons_of_ne_nil hne
    rw [pile_append_of_not_isTable hbelow, hpile, heq]

theorem exists_tables_on_top (vs : List Value) :
    ∃ below tables, vs = below ++ tables ∧ (∀ w ∈ below.getLast?, w.isTable = false) ∧
      ∀ t ∈ tables, t.isTable = true := by
  refine ⟨vs.rdropWhile isTable, vs.rtakeWhile isTable, ?_, ?_, ?_⟩
  · exact List.rdropWhile_append_rtakeWhile.symm
  · intro w hw
    obtain ⟨hne, rfl⟩ := List.mem_getLast?_eq_getLast hw
    exact Bool.eq_false_iff.mpr (List.rdropWhile_last_not isTable vs hne)
  · intro t ht
    exact List.mem_rtakeWhile_imp ht

theorem counts_of_pile (hvs : ∀ w ∈ vs, w.Orderly) (h : pile vs = some v) : Counts vs v := by
  obtain ⟨below, tables, rfl, hbelow, htables⟩ := exists_tables_on_top vs
  match tables with
  | [] =>
    rw [List.append_nil] at h ⊢
    rcases List.eq_nil_or_concat below with rfl | ⟨rest, w, rfl⟩
    · exact absurd h (by simp [pile])
    · have hw : w.isTable = false := hbelow w (by simp)
      rw [List.concat_eq_append, pile_concat_of_not_isTable rest hw] at h
      obtain rfl := Option.some.inj h
      rw [List.concat_eq_append]
      exact .last (.inl hw)
  | [t] =>
    rw [pile_append_of_not_isTable hbelow] at h
    obtain rfl := Option.some.inj h
    exact .last (.inr hbelow)
  | t :: u :: ts =>
    obtain ⟨entries, hpile, horderly, hget⟩ := pile_tables (List.cons_ne_nil t (u :: ts))
      fun t' ht' => ⟨htables t' ht', hvs t' (List.mem_append_right below ht')⟩
    rw [pile_append_of_not_isTable hbelow, hpile] at h
    obtain rfl := Option.some.inj h
    exact .united hbelow htables (by simp) horderly.sorted hget

end Value

end YamlStyle
