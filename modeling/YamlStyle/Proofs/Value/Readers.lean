import YamlStyle.Proofs.Result
import YamlStyle.Proofs.Value.Orderly
import YamlStyle.Value.Environment
import YamlStyle.Value.Json
import YamlStyle.Value.Yaml

/-!
# Readers make orderly values

JSON, the environment and YAML write their tables entry by entry, and each reader collects the entries
of a table before it makes the table. So a reader is orderly if it is so for everything that stands in
a table (`Entries.Orderly`), and `Table.ofList` does the rest. Values and entries are read by each
other, with fuel: the induction is on the fuel, for both at once (`orderly_readers`). YAML has no such
pair, since its entries are read by a `mapM` over the nodes of a table.

TOML builds its tables otherwise; it has a module of its own.
-/

set_option autoImplicit false

namespace YamlStyle

open Value (Orderly)

/-- The values of some entries are orderly. -/
def Entries.Orderly (entries : List (String × Value)) : Prop := ∀ e ∈ entries, e.2.Orderly

theorem Entries.orderly_nil : Entries.Orderly [] := fun _ he => absurd he List.not_mem_nil

theorem Entries.Orderly.cons {name : String} {v : Value} {entries : List (String × Value)}
    (hv : v.Orderly) (h : Entries.Orderly entries) : Entries.Orderly ((name, v) :: entries) := by
  intro e he
  rcases List.mem_cons.mp he with rfl | he
  · exact hv
  · exact h e he

variable {v w : Value} {rest rest' : Text}

theorem orderly_of_some (hw : w.Orderly) (h : some (w, rest) = some (v, rest')) : v.Orderly := by
  obtain ⟨rfl, -⟩ := Prod.mk.inj (Option.some.inj h)
  exact hw

theorem orderly_of_map {α : Type} {read : Option (α × Text)} {make : α → Value}
    (hmake : ∀ a rest, read = some (a, rest) → (make a).Orderly)
    (h : (read.map fun (a, rest) => (make a, rest)) = some (v, rest)) : v.Orderly := by
  obtain ⟨⟨a, after⟩, hread, h⟩ := Option.map_eq_some_iff.mp h
  obtain ⟨rfl, -⟩ := Prod.mk.inj h
  exact hmake a after hread

theorem orderly_of_ok {ε : Type} (hw : w.Orderly)
    (h : (.ok (w, rest) : Except ε (Value × Text)) = .ok (v, rest')) : v.Orderly := by
  obtain ⟨rfl, -⟩ := Prod.mk.inj (Except.ok.inj h)
  exact hw

theorem orderly_of_ok_map {ε α : Type} {read : Except ε (α × Text)} {make : α → Value}
    (hmake : ∀ a rest, read = .ok (a, rest) → (make a).Orderly)
    (h : (read.map fun (a, rest) => (make a, rest)) = .ok (v, rest)) : v.Orderly := by
  cases hread : read with
  | error e =>
    rw [hread] at h
    exact absurd h (by simp [Except.map])
  | ok found =>
    obtain ⟨a, after⟩ := found
    rw [hread] at h
    exact orderly_of_ok (hmake a after hread) h

/-! ## JSON -/

namespace Json

theorem isTable_number? {negative : Bool} {text : Text}
    (h : number? negative text = some (v, rest)) : v.isTable = false := by
  simp only [number?, Option.bind_eq_bind] at h
  split at h
  · simp at h
  · simp at h
  · simp only [Option.bind_eq_some_iff] at h
    obtain ⟨_, _, _, _, h⟩ := h
    generalize (if negative = true then -(decimalValue (digits text).1 : Int)
      else (decimalValue (digits text).1 : Int)) = n at h
    split at h
    · obtain ⟨rfl, -⟩ := Prod.mk.inj (Option.some.inj h)
      rfl
    · obtain ⟨_, _, h⟩ := Option.bind_eq_some_iff.mp h
      obtain ⟨rfl, -⟩ := Prod.mk.inj (Option.some.inj h)
      rfl

theorem orderly_members {fuel : Nat}
    (hvalue : ∀ {depth : Nat} {text rest : Text} {v : Value},
      value? fuel depth text = some (v, rest) → v.Orderly)
    (hmembers : ∀ {depth : Nat} {text rest : Text} {es : List (String × Value)},
      members? fuel depth text = some (es, rest) → Entries.Orderly es)
    {depth : Nat} {text : Text} {es : List (String × Value)}
    (h : members? (fuel + 1) depth text = some (es, rest)) : Entries.Orderly es := by
  rw [members?] at h
  split at h
  · simp only [Option.bind_eq_bind, Option.bind_eq_some_iff] at h
    obtain ⟨⟨name, after⟩, -, h⟩ := h
    split at h
    · simp only [Option.bind_eq_some_iff] at h
      obtain ⟨⟨v, after⟩, hv, h⟩ := h
      split at h
      · obtain ⟨⟨more, after⟩, hmore, h⟩ := Option.bind_eq_some_iff.mp h
        obtain ⟨rfl, -⟩ := Prod.mk.inj (Option.some.inj h)
        exact .cons (hvalue hv) (hmembers hmore)
      · obtain ⟨rfl, -⟩ := Prod.mk.inj (Option.some.inj h)
        exact .cons (hvalue hv) Entries.orderly_nil
      · simp at h
    · simp at h
  · simp at h

theorem orderly_value {fuel : Nat}
    (hmembers : ∀ {depth : Nat} {text rest : Text} {es : List (String × Value)},
      members? fuel depth text = some (es, rest) → Entries.Orderly es)
    {depth : Nat} {text : Text} (h : value? (fuel + 1) depth text = some (v, rest)) :
    v.Orderly := by
  rw [value?] at h
  split at h
  · exact orderly_of_map (fun s _ _ => .other rfl) h
  · exact orderly_of_some (.other rfl) h
  · exact orderly_of_some (.other rfl) h
  · exact orderly_of_some (.other rfl) h
  · exact .other (isTable_number? h)
  · obtain ⟨-, h⟩ := Option.ite_none_left_eq_some.mp h
    split at h
    · exact orderly_of_some (.other rfl) h
    · exact orderly_of_map (fun vs _ _ => .other rfl) h
  · obtain ⟨-, h⟩ := Option.ite_none_left_eq_some.mp h
    split at h
    · exact orderly_of_some .empty h
    · exact orderly_of_map (fun es after hes => .ofList (hmembers hes)) h
  · exact .other (isTable_number? h)

theorem orderly_readers (fuel : Nat) :
    (∀ {depth : Nat} {text rest : Text} {v : Value},
      value? fuel depth text = some (v, rest) → v.Orderly) ∧
    ∀ {depth : Nat} {text rest : Text} {es : List (String × Value)},
      members? fuel depth text = some (es, rest) → Entries.Orderly es := by
  induction fuel with
  | zero =>
    constructor
    · intro depth text rest v h
      exact absurd h (by simp [value?])
    · intro depth text rest es h
      exact absurd h (by simp [members?])
  | succ fuel ih => exact ⟨orderly_value ih.2, orderly_members ih.1 ih.2⟩

theorem orderly_parse? {text : Text} (h : parse? text = some v) : v.Orderly := by
  rw [parse?] at h
  split at h
  · rename_i hvalue
    obtain ⟨-, h⟩ := Option.ite_none_right_eq_some.mp h
    obtain rfl := Option.some.inj h
    exact (orderly_readers _).1 hvalue
  · simp at h

end Json

/-! ## The environment -/

namespace Environment

theorem isTable_word (text : Text) : (word text).1.isTable = false := by
  show (wordValue _).isTable = false
  rw [wordValue]
  split
  · rfl
  · split <;> rfl

theorem orderly_pairs {fuel : Nat}
    (hvalue : ∀ {text rest : Text} {v : Value}, value fuel text = .ok (v, rest) → v.Orderly)
    (hpairs : ∀ {text rest : Text} {es : List (String × Value)},
      pairs fuel text = .ok (es, rest) → Entries.Orderly es)
    {text : Text} {es : List (String × Value)} (h : pairs (fuel + 1) text = .ok (es, rest)) :
    Entries.Orderly es := by
  unfold pairs at h
  dsimp only at h
  split at h
  · obtain ⟨rfl, -⟩ := Prod.mk.inj (Except.ok.inj h)
    exact Entries.orderly_nil
  · obtain ⟨⟨name, after⟩, -, h⟩ := exists_of_bind_eq_ok h
    split at h
    · obtain ⟨⟨v, after⟩, hv, h⟩ := exists_of_bind_eq_ok h
      split at h
      · obtain ⟨⟨more, after⟩, hmore, h⟩ := exists_of_bind_eq_ok h
        obtain ⟨rfl, -⟩ := Prod.mk.inj (Except.ok.inj h)
        exact .cons (hvalue hv) (hpairs hmore)
      · obtain ⟨rfl, -⟩ := Prod.mk.inj (Except.ok.inj h)
        exact .cons (hvalue hv) Entries.orderly_nil
      · exact absurd h (by simp)
    · exact absurd h (by simp)

theorem exists_of_skip {found : Except Refusal (Value × Text)}
    (h : (found >>= fun (v, rest) => pure (v, skip rest)) = .ok (v, rest)) :
    ∃ after, found = .ok (v, after) := by
  obtain ⟨⟨w, after⟩, hfound, h⟩ := exists_of_bind_eq_ok h
  obtain ⟨rfl, -⟩ := Prod.mk.inj (Except.ok.inj h)
  exact ⟨after, hfound⟩

theorem orderly_value {fuel : Nat}
    (hpairs : ∀ {text rest : Text} {es : List (String × Value)},
      pairs fuel text = .ok (es, rest) → Entries.Orderly es)
    {text : Text} (h : value (fuel + 1) text = .ok (v, rest)) : v.Orderly := by
  rw [value] at h
  split at h
  · obtain ⟨after, hv⟩ := exists_of_skip h
    exact orderly_of_ok (.other rfl) hv
  · obtain ⟨after, hv⟩ := exists_of_skip h
    exact orderly_of_ok (.other rfl) hv
  · obtain ⟨after, hv⟩ := exists_of_skip h
    exact orderly_of_ok_map (fun es after hes => .ofList (hpairs hes)) hv
  · obtain ⟨after, hv⟩ := exists_of_skip h
    exact orderly_of_ok_map (fun _ _ _ => .other rfl) hv
  · obtain ⟨after, hv⟩ := exists_of_skip h
    exact orderly_of_ok_map (fun _ _ _ => .other rfl) hv
  · obtain ⟨after, hv⟩ := exists_of_skip h
    exact orderly_of_ok (.other rfl) hv
  · exact absurd h (by simp [bind, Except.bind])
  · obtain ⟨after, hv⟩ := exists_of_skip h
    exact orderly_of_ok (.other (isTable_word _)) hv

theorem orderly_readers (fuel : Nat) :
    (∀ {text rest : Text} {v : Value}, value fuel text = .ok (v, rest) → v.Orderly) ∧
    ∀ {text rest : Text} {es : List (String × Value)},
      pairs fuel text = .ok (es, rest) → Entries.Orderly es := by
  induction fuel with
  | zero =>
    constructor
    · intro text rest v h
      exact absurd h (by simp [value])
    · intro text rest es h
      exact absurd h (by simp [pairs])
  | succ fuel ih => exact ⟨orderly_value ih.2, orderly_pairs ih.1 ih.2⟩

theorem orderly_parse? {text : String} (h : parse? text = some v) : v.Orderly := by
  rw [parse?] at h
  split at h
  · rename_i hvalue
    obtain rfl := Option.some.inj h
    exact (orderly_readers _).1 hvalue
  · exact absurd h (by simp)
  · obtain rfl := Option.some.inj h
    exact .other rfl

theorem orderly_nest (hv : v.Orderly) (path : List String) : (nest v path).Orderly := by
  induction path with
  | nil => exact hv
  | cons name rest ih => exact .insert .empty name ih

theorem splitDots_ne_nil (text : Text) : splitDots text ≠ [] := by
  induction text with
  | nil => simp [splitDots]
  | cons c rest ih =>
    rw [splitDots]
    split
    · simp
    · split <;> simp

theorem ne_nil_of_path? {name : String} {path : List String} (h : path? name = some path) :
    path ≠ [] := by
  simp only [path?, Option.ite_none_right_eq_some, Option.ite_none_left_eq_some] at h
  obtain ⟨-, -, h⟩ := h
  obtain rfl := Option.some.inj h
  intro hnil
  exact splitDots_ne_nil _ (List.map_eq_nil_iff.mp hnil)

/-- A variable speaks of one setting: what it says is a table. -/
theorem isTable_orderly_of_entry {name text : String} (h : entry name text = some (.ok v)) :
    v.isTable = true ∧ v.Orderly := by
  obtain ⟨path, hpath, h⟩ := Option.map_eq_some_iff.mp h
  split at h
  · rename_i w hw
    obtain rfl := Except.ok.inj h
    refine ⟨?_, orderly_nest (orderly_parse? hw) path⟩
    cases path with
    | nil => exact absurd rfl (ne_nil_of_path? hpath)
    | cons name rest => rfl
  · exact absurd h (by simp)

theorem isTable_orderly_toValue {environment : List (String × String)}
    (h : toValue environment = .ok v) : v.isTable = true ∧ v.Orderly := by
  obtain ⟨entries, hentries, h⟩ := exists_of_bind_eq_ok h
  obtain rfl := Except.ok.inj h
  have hall : ∀ layer ∈ entries, layer.isTable = true ∧ layer.Orderly := by
    intro layer hlayer
    obtain ⟨said, hsaid, hread⟩ := exists_of_mem_mapM hentries hlayer
    obtain ⟨⟨name, text⟩, -, hentry⟩ := List.mem_filterMap.mp hsaid
    exact isTable_orderly_of_entry (hentry.trans (congrArg some hread))
  constructor
  · exact Value.isTable_overlayAll rfl fun layer hlayer => (hall layer hlayer).1
  · exact Orderly.overlayAll .empty fun layer hlayer => (hall layer hlayer).2

end Environment

/-! ## YAML -/

namespace Yaml

theorem exists_of_run_bind {α β : Type} {x : Replacing α} {f : α → Replacing β} {left left' : Nat}
    {b : β} (h : (x >>= f).run left = some (b, left')) :
    ∃ a between, x.run left = some (a, between) ∧ (f a).run between = some (b, left') := by
  rw [StateT.run_bind] at h
  obtain ⟨⟨a, between⟩, hx, hf⟩ := Option.bind_eq_some_iff.mp h
  exact ⟨a, between, hx, hf⟩

theorem eq_of_run_pure {α : Type} {a b : α} {left left' : Nat}
    (h : (pure a : Replacing α).run left = some (b, left')) : a = b :=
  (Prod.mk.inj (Option.some.inj h)).1

theorem isTable_wordValue (word : Text) : (wordValue word).isTable = false := by
  rw [wordValue]
  split
  · rfl
  · split
    · rfl
    · rfl
    · split <;> rfl

theorem isTable_taggedValue? {tag text : Text} (h : taggedValue? tag text = some v) :
    v.isTable = false := by
  rw [taggedValue?] at h
  split_ifs at h
  · obtain ⟨b, -, rfl⟩ := Option.map_eq_some_iff.mp h
    rfl
  · obtain ⟨n, -, rfl⟩ := Option.map_eq_some_iff.mp h
    rfl
  · obtain rfl := Option.some.inj h
    rfl
  · obtain rfl := Option.some.inj h
    rfl
  · obtain rfl := Option.some.inj h
    rfl

theorem isTable_scalarValue? {tag : Option Text} {isPlain : Bool} {text : Text}
    (h : scalarValue? tag isPlain text = some v) : v.isTable = false := by
  cases tag with
  | some tag => exact isTable_taggedValue? h
  | none =>
    obtain rfl := Option.some.inj h
    split
    · exact isTable_wordValue text
    · rfl

theorem orderly_leaf {properties : Properties} {isPlain : Bool} {text : Text} {left left' : Nat}
    (h : (leaf properties isPlain text).run left = some (v, left')) : v.Orderly := by
  rw [leaf] at h
  split at h
  · rename_i hv
    obtain rfl := eq_of_run_pure h
    exact .other (isTable_scalarValue? hv)
  · exact absurd h (by simp [failure, StateT.run, StateT.failure])

theorem exists_run_of_mem_mapM {α β : Type} {f : α → Replacing β} {xs : List α} {ys : List β}
    {left left' : Nat} (h : (xs.mapM f).run left = some (ys, left')) {y : β} (hy : y ∈ ys) :
    ∃ x before after, (f x).run before = some (y, after) := by
  induction xs generalizing left left' ys with
  | nil =>
    obtain rfl := eq_of_run_pure h
    exact absurd hy List.not_mem_nil
  | cons x xs ih =>
    rw [List.mapM_cons] at h
    obtain ⟨z, between, hz, h⟩ := exists_of_run_bind h
    obtain ⟨zs, end', hzs, h⟩ := exists_of_run_bind h
    obtain rfl := eq_of_run_pure h
    rcases List.mem_cons.mp hy with rfl | hy
    · exact ⟨x, left, between, hz⟩
    · exact ih hzs hy

theorem orderly_table {anchors : List (Nat × Node)} {read : Node → Replacing Value}
    (hread : ∀ {node : Node} {left left' : Nat} {v : Value},
      (read node).run left = some (v, left') → v.Orderly)
    {pairs : List (Node × Node)} {left left' : Nat}
    (h : (table anchors read pairs).run left = some (v, left')) : v.Orderly := by
  obtain ⟨entries, between, hentries, h⟩ := exists_of_run_bind h
  obtain rfl := eq_of_run_pure h
  apply Orderly.ofList
  intro e he
  obtain ⟨⟨key, node⟩, before, after, hpair⟩ := exists_run_of_mem_mapM hentries he
  obtain ⟨key, between, -, hpair⟩ := exists_of_run_bind hpair
  obtain ⟨w, between, hw, hpair⟩ := exists_of_run_bind hpair
  obtain rfl := eq_of_run_pure hpair
  exact hread hw

theorem orderly_value {anchors : List (Nat × Node)} {depth : Nat} {node : Node} {left left' : Nat}
    (h : (value anchors depth node).run left = some (v, left')) : v.Orderly := by
  induction depth generalizing node left left' v with
  | zero =>
    obtain ⟨node, between, -, h⟩ := exists_of_run_bind h
    split at h
    · exact orderly_leaf h
    · exact absurd h (by simp [failure, StateT.run, StateT.failure])
  | succ depth ih =>
    obtain ⟨node, between, -, h⟩ := exists_of_run_bind h
    split at h
    · exact orderly_leaf h
    · split at h
      · exact absurd h (by simp [failure, StateT.run, StateT.failure])
      · obtain ⟨items, between, -, h⟩ := exists_of_run_bind h
        obtain rfl := eq_of_run_pure h
        exact .other rfl
    · split at h
      · exact absurd h (by simp [failure, StateT.run, StateT.failure])
      · exact orderly_table ih h
    · exact absurd h (by simp [failure, StateT.run, StateT.failure])

theorem orderly_parse? {text : Text} (h : parse? text = some v) : v.Orderly := by
  simp only [parse?, Option.bind_eq_bind, Option.bind_eq_some_iff] at h
  obtain ⟨lexemes, -, root, -, h⟩ := h
  unfold documentValue? at h
  split at h
  · obtain rfl := Option.some.inj h
    exact .empty
  · obtain ⟨⟨w, left⟩, hw, rfl⟩ := Option.map_eq_some_iff.mp h
    exact orderly_table orderly_value hw
  · exact absurd h (by simp)

end Yaml

end YamlStyle
