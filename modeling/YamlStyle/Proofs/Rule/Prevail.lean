import YamlStyle.Config
import YamlStyle.Proofs.Value.Orderly

/-!
# Which setting of a rule prevails

A rule can be spoken of in many layers: switched off in one, given options in the next, switched on
again in a third. What it comes to is said by `Prevails`. A toggle on top is all that counts. A table of
options on top joins the tables below it, down to the last toggle, and the uppermost table that has an
option decides about it.

The values of the layers are laid over each other before any of them is read as a setting. That this
makes no difference is `exists_prevails`: by induction over the layers, where the step is that an option
that can be read is no table (`isTable_of_ofValue?`), so that options replace each other as a whole.
-/

set_option autoImplicit false

namespace YamlStyle

/-! ## Tables read value by value -/

namespace Table

variable {α β : Type}

/-- The second table is the first one with its values read. -/
def Reads (read : α → Option β) (table : Table α) (answer : Table β) : Prop :=
  List.Forall₂ (fun e e' => e.1 = e'.1 ∧ read e.2 = some e'.2) table answer

variable {read : α → Option β} {table : Table α} {answer : Table β}

theorem Reads.keys_eq (h : Reads read table answer) : answer.keys = table.keys := by
  induction h with
  | nil => rfl
  | cons he hrest ih =>
    simp only [keys, List.map_cons] at ih ⊢
    rw [he.1, ih]

theorem Reads.sorted (h : Reads read table answer) (hsorted : table.Sorted) : answer.Sorted := by
  rw [Sorted, h.keys_eq]
  exact hsorted

theorem Reads.get?_eq (h : Reads read table answer) (name : String) :
    answer.get? name = (table.get? name).bind read := by
  induction h with
  | nil => rfl
  | @cons e e' rest rest' he hrest ih =>
    obtain ⟨k, v⟩ := e
    obtain ⟨k', v'⟩ := e'
    obtain ⟨rfl, hv⟩ := he
    simp only [get?]
    split
    · exact hv.symm
    · exact ih

theorem Reads.exists_read (h : Reads read table answer) {e : String × α} (he : e ∈ table) :
    ∃ b, read e.2 = some b := by
  induction h with
  | nil => exact absurd he List.not_mem_nil
  | @cons e₀ e' rest rest' hfirst hrest ih =>
    rcases List.mem_cons.mp he with rfl | he
    · exact ⟨e'.2, hfirst.2⟩
    · exact ih he

theorem exists_reads (h : ∀ e ∈ table, ∃ b, read e.2 = some b) : ∃ answer, Reads read table answer := by
  induction table with
  | nil => exact ⟨[], .nil⟩
  | cons e rest ih =>
    obtain ⟨b, hb⟩ := h e List.mem_cons_self
    obtain ⟨answer, hanswer⟩ := ih fun e' he' => h e' (List.mem_cons_of_mem e he')
    exact ⟨(e.1, b) :: answer, .cons ⟨rfl, hb⟩ hanswer⟩

end Table

open Value (Orderly isTable atop overlay overlayEntries pile pile_concat)

theorem OptionValue.isTable_of_ofValue? {v : Value} {o : OptionValue} (h : ofValue? v = some o) :
    v.isTable = false := by
  cases v with
  | table entries => exact absurd h (by simp [ofValue?])
  | null | bool | int | float | char | str | list => rfl

namespace Setting

variable {entries base top : Table Value} {values tops : Table OptionValue} {v : Value} {s : Setting}

theorem optionTable?_eq_some_iff :
    optionTable? entries = some values ↔ entries.Reads OptionValue.ofValue? values := by
  induction entries generalizing values with
  | nil =>
    constructor
    · intro h
      obtain rfl := Option.some.inj h
      exact .nil
    · rintro ⟨⟩
      rfl
  | cons e entries ih =>
    obtain ⟨name, v⟩ := e
    simp only [optionTable?, Option.bind_eq_bind, Option.bind_eq_some_iff]
    constructor
    · rintro ⟨o, ho, rest, hrest, h⟩
      obtain rfl := Option.some.inj h
      exact .cons ⟨rfl, ho⟩ (ih.mp hrest)
    · intro h
      cases h with
      | @cons _ e' _ rest he hrest =>
        obtain ⟨name', o⟩ := e'
        obtain ⟨rfl, ho⟩ := he
        exact ⟨o, ho, rest, ih.mpr hrest, rfl⟩

/-- What a layer may say about a rule, and what it means: a word, or a table of options. -/
inductive Written : Value → Setting → Prop
  | enable : Written (.str "enable") (.toggle true)
  | disable : Written (.str "disable") (.toggle false)
  | options {entries : Table Value} {values : Table OptionValue} :
      optionTable? entries = some values → Written (.table entries) (.options values)

/-- Whether a value is what a layer may say about a rule. -/
def isWritten : Value → Bool
  | .str s => s == "enable" || s == "disable"
  | .table entries => (optionTable? entries).isSome
  | _ => false

theorem isWritten_iff : isWritten v = true ↔ ∃ s, Written v s := by
  constructor
  · intro h
    cases v with
    | str s =>
      simp only [isWritten, Bool.or_eq_true, beq_iff_eq] at h
      rcases h with rfl | rfl
      · exact ⟨_, .enable⟩
      · exact ⟨_, .disable⟩
    | table entries =>
      obtain ⟨values, hvalues⟩ := Option.isSome_iff_exists.mp h
      exact ⟨_, .options hvalues⟩
    | null | bool | int | float | char | list => exact absurd h (by simp [isWritten])
  · rintro ⟨s, hs⟩
    cases hs with
    | enable | disable => rfl
    | options hvalues => simp [isWritten, hvalues]

theorem Written.ofValue?_eq (h : Written v s) : ofValue? v = some s := by
  cases h with
  | enable | disable => rfl
  | @options entries values hvalues =>
    unfold ofValue?
    dsimp only
    split
    · -- An option that is null cannot be read, so this is no table of options.
      exact absurd hvalues (by simp [optionTable?, OptionValue.ofValue?])
    · rw [hvalues]
      rfl

theorem wideInteger?_of_ofValue? {o : OptionValue} (h : OptionValue.ofValue? v = some o) :
    Config.wideInteger? v = none := by
  cases v with
  | int n =>
    obtain ⟨⟨hmin, hmax⟩, -⟩ := Option.ite_none_right_eq_some.mp h
    have hfits : Value.fitsWord n = true := by
      refine decide_eq_true ⟨hmin, ?_⟩
      simp only [Value.maxInt, Value.maxNat] at hmax ⊢
      omega
    rw [Config.wideInteger?, if_pos hfits]
  | list | table => exact absurd h (by simp [OptionValue.ofValue?])
  | null | bool | float | char | str => simp [Config.wideInteger?]

theorem wideEntry?_of_optionTable? (h : optionTable? entries = some values) :
    Config.wideEntry? entries = none := by
  have hreads := optionTable?_eq_some_iff.mp h
  clear h
  induction hreads with
  | nil => rfl
  | @cons e e' rest rest' he hrest ih => rw [Config.wideEntry?, wideInteger?_of_ofValue? he.2, ih]

theorem Written.wideInteger?_eq (h : Written v s) : Config.wideInteger? v = none := by
  cases h with
  | enable | disable => simp [Config.wideInteger?]
  | options hvalues => rw [Config.wideInteger?, wideEntry?_of_optionTable? hvalues]

/-! ## Tables of options over each other -/

theorem exists_ofValue?_of_get? (hvalues : optionTable? entries = some values) {name : String}
    (hget : entries.get? name = some v) : ∃ o, OptionValue.ofValue? v = some o :=
  (optionTable?_eq_some_iff.mp hvalues).exists_read (Table.mem_of_get?_eq_some hget)

/-- Options replace each other as a whole. -/
theorem get?_overlayEntries_options (htop : top.Sorted) (htops : optionTable? top = some tops)
    (base : Table Value) (name : String) :
    Table.get? (overlayEntries base top) name = (top.get? name).or (base.get? name) := by
  rw [Value.get?_overlayEntries htop.nodup]
  cases hget : top.get? name with
  | none => rfl
  | some v =>
    obtain ⟨o, ho⟩ := exists_ofValue?_of_get? htops hget
    have hv := OptionValue.isTable_of_ofValue? ho
    cases base.get? name with
    | none => rfl
    | some w => simp [atop, Value.overlay_of_not_isTable w hv]

theorem exists_optionTable?_overlayEntries (hbase : Orderly (.table base))
    (htop : Orderly (.table top)) (hvalues : optionTable? base = some values)
    (htops : optionTable? top = some tops) :
    ∃ united, optionTable? (overlayEntries base top) = some united ∧ united.Sorted ∧
      ∀ name, united.get? name = (tops.get? name).or (values.get? name) := by
  have hget := get?_overlayEntries_options htop.sorted htops base
  have hsorted : Table.Sorted (overlayEntries base top) := by
    have h := Orderly.overlay hbase htop
    rw [overlay] at h
    exact h.sorted
  have hread : ∀ e ∈ overlayEntries base top, ∃ o, OptionValue.ofValue? e.2 = some o := by
    intro e he
    have hentry := (Table.get?_eq_some_iff hsorted.nodup).mpr he
    rw [hget] at hentry
    rcases Option.or_eq_some_iff.mp hentry with h | ⟨-, h⟩
    · exact exists_ofValue?_of_get? htops h
    · exact exists_ofValue?_of_get? hvalues h
  obtain ⟨united, hunited⟩ := Table.exists_reads hread
  refine ⟨united, optionTable?_eq_some_iff.mpr hunited, hunited.sorted hsorted, ?_⟩
  intro name
  rw [hunited.get?_eq, hget, (optionTable?_eq_some_iff.mp htops).get?_eq,
    (optionTable?_eq_some_iff.mp hvalues).get?_eq]
  cases htopget : top.get? name with
  | none => rfl
  | some v =>
    obtain ⟨o, ho⟩ := exists_ofValue?_of_get? htops htopget
    simp [ho]

/-! ## What prevails -/

/-- What a list of settings of one rule comes to, the lowest first. -/
inductive Prevails : List Setting → Setting → Prop
  /-- A toggle on top is all that counts. -/
  | toggle (below : List Setting) (on : Bool) : Prevails (below ++ [.toggle on]) (.toggle on)
  /-- Tables on top are united down to the last toggle, and the uppermost one that has an option
  decides about it. -/
  | options {below : List Setting} {tables : List (Table OptionValue)} {values : Table OptionValue} :
      (∀ s ∈ below.getLast?, ∃ on, s = .toggle on) → tables ≠ [] → values.Sorted →
      (∀ name, values.get? name = (tables.filterMap (·.get? name)).getLast?) →
      Prevails (below ++ tables.map .options) (.options values)

theorem Prevails.first {below : List Setting} (hbelow : ∀ s ∈ below.getLast?, ∃ on, s = .toggle on)
    (hsorted : values.Sorted) : Prevails (below ++ [.options values]) (.options values) := by
  show Prevails (below ++ [values].map Setting.options) (.options values)
  refine .options hbelow (by simp) hsorted ?_
  intro name
  cases hget : values.get? name <;> simp [hget]

theorem Prevails.more {settings : List Setting} (h : Prevails settings (.options values))
    {united : Table OptionValue} (hsorted : united.Sorted)
    (hunited : ∀ name, united.get? name = (tops.get? name).or (values.get? name)) :
    Prevails (settings ++ [.options tops]) (.options united) := by
  cases h with
  | @options below tables _ hbelow hne _ hvalues =>
    have hall : below ++ tables.map Setting.options ++ [.options tops] =
        below ++ (tables ++ [tops]).map Setting.options := by simp
    rw [hall]
    refine .options hbelow (by simp) hsorted ?_
    intro name
    rw [hunited, hvalues, List.filterMap_append, List.getLast?_append]
    cases hget : tops.get? name <;> simp [hget]

theorem Prevails.getLast?_eq {settings : List Setting} {on : Bool}
    (h : Prevails settings (.toggle on)) : settings.getLast? = some (.toggle on) := by
  cases h with
  | toggle below => simp

theorem Prevails.exists_getLast?_eq {settings : List Setting} (h : Prevails settings (.options values)) :
    ∃ top, settings.getLast? = some (.options top) := by
  cases h with
  | @options below tables _ hbelow hne hsorted hvalues =>
    obtain ⟨rest, top, rfl⟩ := (List.eq_nil_or_concat tables).resolve_left hne
    exact ⟨top, by simp⟩

/-- A list is cut in one way into a part that ends otherwise and a part in which all is so. -/
theorem cut_unique {α : Type} {p : α → Prop} {below below' top top' : List α}
    (h : below ++ top = below' ++ top') (htop : ∀ a ∈ top, p a) (htop' : ∀ a ∈ top', p a)
    (hbelow : ∀ a ∈ below.getLast?, ¬p a) (hbelow' : ∀ a ∈ below'.getLast?, ¬p a) : top = top' := by
  rcases List.append_eq_append_iff.mp h with ⟨mid, hb, ht⟩ | ⟨mid, hb, ht⟩
  · rcases List.eq_nil_or_concat mid with rfl | ⟨mid, a, rfl⟩
    · simpa using ht
    · exact absurd (htop a (by simp [ht])) (hbelow' a (by simp [hb]))
  · rcases List.eq_nil_or_concat mid with rfl | ⟨mid, a, rfl⟩
    · simpa using ht.symm
    · exact absurd (htop' a (by simp [ht])) (hbelow a (by simp [hb]))

theorem all_options {tables : List (Table OptionValue)} :
    ∀ s ∈ tables.map Setting.options, ∃ values, s = .options values := by
  simp

theorem not_options {below : List Setting} (h : ∀ s ∈ below.getLast?, ∃ on, s = .toggle on) :
    ∀ s ∈ below.getLast?, ¬∃ values, s = .options values := by
  intro s hs hoptions
  obtain ⟨on, rfl⟩ := h s hs
  exact absurd hoptions (by simp)

theorem Prevails.unique {settings : List Setting} {s s' : Setting} (h : Prevails settings s)
    (h' : Prevails settings s') : s = s' := by
  cases s with
  | toggle on =>
    cases s' with
    | toggle on' => exact Option.some.inj (h.getLast?_eq.symm.trans h'.getLast?_eq)
    | options values' =>
      obtain ⟨t, ht⟩ := h'.exists_getLast?_eq
      exact absurd (h.getLast?_eq.symm.trans ht) (by simp)
  | options values =>
    cases s' with
    | toggle on' =>
      obtain ⟨t, ht⟩ := h.exists_getLast?_eq
      exact absurd (h'.getLast?_eq.symm.trans ht) (by simp)
    | options values' =>
      cases h with
      | @options below tables _ hbelow hne hsorted hvalues =>
        generalize hall : below ++ tables.map Setting.options = settings at h'
        cases h' with
        | @options below' tables' _ hbelow' hne' hsorted' hvalues' =>
          have htables : tables = tables' := by
            have hcut : tables.map Setting.options = tables'.map Setting.options :=
              cut_unique hall all_options all_options (not_options hbelow) (not_options hbelow')
            exact List.map_injective_iff.mpr (fun t t' => Setting.options.inj) hcut
          subst htables
          have heq : values = values' := hsorted.ext hsorted' fun name => by rw [hvalues, hvalues']
          rw [heq]

theorem Written.isTable_of_toggle {on : Bool} (h : Written v (.toggle on)) : v.isTable = false := by
  cases h <;> rfl

theorem Written.prevails {below : List Setting} (hbelow : ∀ s ∈ below.getLast?, ∃ on, s = .toggle on)
    (h : Written v s) (horderly : v.Orderly) : Prevails (below ++ [s]) s := by
  cases h with
  | enable | disable => exact .toggle below _
  | options hvalues =>
    exact .first hbelow ((optionTable?_eq_some_iff.mp hvalues).sorted horderly.sorted)

/-- One more value on top. -/
theorem exists_prevails_overlay {settings : List Setting} {w : Value} {t : Setting}
    (hw : w.Orderly) (ht : Written w t) (hprevails : Prevails settings t) (hv : v.Orderly)
    (hs : Written v s) : ∃ s', Written (overlay w v) s' ∧ Prevails (settings ++ [s]) s' := by
  cases t with
  | toggle on =>
    rw [Value.overlay_of_base_not_isTable ht.isTable_of_toggle]
    refine ⟨s, hs, hs.prevails ?_ hv⟩
    intro last hlast
    rw [hprevails.getLast?_eq] at hlast
    exact ⟨on, (Option.some.inj hlast).symm⟩
  | options values =>
    cases hs with
    | enable | disable =>
      rw [Value.overlay_of_not_isTable w rfl]
      exact ⟨_, by constructor, .toggle settings _⟩
    | options htops =>
      cases ht with
      | options hvalues =>
        obtain ⟨united, hunited, hsorted, hget⟩ :=
          exists_optionTable?_overlayEntries hw hv hvalues htops
        rw [overlay]
        exact ⟨_, .options hunited, hprevails.more hsorted hget⟩

/-- **Values can be laid over each other first and read then**: what comes of it is written, and means
the setting that prevails. -/
theorem exists_prevails {vs : List Value} (hvs : ∀ v ∈ vs, v.Orderly ∧ ∃ s, Written v s)
    (hpile : pile vs = some v) :
    v.Orderly ∧ ∃ s, Written v s ∧ Prevails (vs.filterMap ofValue?) s := by
  induction vs using List.reverseRecOn generalizing v with
  | nil => exact absurd hpile (by simp [pile])
  | append_singleton vs top ih =>
    obtain ⟨horderly, s, hs⟩ := hvs top (by simp)
    have hsettings : (vs ++ [top]).filterMap ofValue? = vs.filterMap ofValue? ++ [s] := by
      rw [List.filterMap_append]
      simp [hs.ofValue?_eq]
    rw [pile_concat] at hpile
    obtain rfl := Option.some.inj hpile
    rw [hsettings]
    cases hw : pile vs with
    | none =>
      obtain rfl : vs = [] := by
        cases vs with
        | nil => rfl
        | cons v vs => exact absurd hw (by simp [pile])
      exact ⟨horderly, s, hs, hs.prevails (by simp) horderly⟩
    | some w =>
      obtain ⟨hworderly, t, ht, hprevails⟩ :=
        ih (fun v hv => hvs v (List.mem_append_left [top] hv)) hw
      exact ⟨hworderly.overlay horderly, exists_prevails_overlay hworderly ht hprevails horderly hs⟩

end Setting

/-! ## All rules -/

namespace Config

theorem exists_readSettings {entries : Table Value}
    (h : ∀ e ∈ entries, ∃ s, Setting.Written e.2 s) :
    ∃ settings, readSettings entries = .ok settings ∧
      Table.Reads Setting.ofValue? entries settings := by
  induction entries with
  | nil => exact ⟨[], rfl, .nil⟩
  | cons e entries ih =>
    obtain ⟨id, v⟩ := e
    obtain ⟨s, hs⟩ := h (id, v) List.mem_cons_self
    obtain ⟨settings, hsettings, hreads⟩ := ih fun e he => h e (List.mem_cons_of_mem _ he)
    refine ⟨(id, s) :: settings, ?_, .cons ⟨rfl, hs.ofValue?_eq⟩ hreads⟩
    rw [readSettings, hs.wideInteger?_eq, hs.ofValue?_eq, hsettings]
    rfl

end Config

end YamlStyle
