import YamlStyle.Proofs.Result
import YamlStyle.Proofs.Rule.Resolution
import YamlStyle.Proofs.Text.ByteOrder

/-!
# Settings that do not fit

Settings that do not fit a catalog are refused with one error, however much is wrong with them.
`resolve_refuses` says when that happens and which error it is: that of the first faulty rule in the
order of the names, and of the first faulty option of that rule.

What is wrong with an option or with a whole entry is said by relations that know nothing of an order
(`Rule.Refuses`, `Catalog.IsFaulty`). The code has two loops, one in the other, and both end at the first
thing that is wrong. They meet the relations in `firstRefusal_cons`: in a table that is in order, the
first refusal is that of the first entry, or the first entry is not refused and the rest decides.
-/

set_option autoImplicit false

namespace YamlStyle

/-! ## The first refusal in a table -/

namespace Table

variable {α ε : Type} {refuses : String → α → ε → Prop} {table rest : Table α} {name : String}
  {value : α} {e : ε}

/-- An entry is refused with this error, and no name before it has an entry that is refused. -/
def FirstRefusal (refuses : String → α → ε → Prop) (table : Table α) (e : ε) : Prop :=
  ∃ name value, (name, value) ∈ table ∧ refuses name value e ∧
    ∀ other value' e', (other, value') ∈ table → refuses other value' e' →
      bytes name.toList ≤ bytes other.toList

theorem not_firstRefusal_nil : ¬FirstRefusal refuses [] e := by
  rintro ⟨name, value, hmem, -⟩
  exact absurd hmem List.not_mem_nil

theorem firstRefusal_cons (h : Sorted ((name, value) :: rest)) :
    FirstRefusal refuses ((name, value) :: rest) e ↔
      refuses name value e ∨ (∀ e', ¬refuses name value e') ∧ FirstRefusal refuses rest e := by
  have hbelow : ∀ {other value'}, (other, value') ∈ rest → name < other := fun hmem =>
    (sorted_cons.mp h).1 _ (List.mem_map_of_mem hmem)
  constructor
  · rintro ⟨first, found, hmem, hrefuses, hfirst⟩
    rcases List.mem_cons.mp hmem with heq | hmem
    · obtain ⟨rfl, rfl⟩ := Prod.mk.inj heq
      exact Or.inl hrefuses
    · refine Or.inr ⟨?_, first, found, hmem, hrefuses, ?_⟩
      · intro e' he'
        have hle := bytes_le_bytes_iff.mp (hfirst name value e' List.mem_cons_self he')
        exact absurd (hbelow hmem) (not_lt.mpr hle)
      · intro other value' e' hother he'
        exact hfirst other value' e' (List.mem_cons_of_mem _ hother) he'
  · rintro (hrefuses | ⟨hpasses, first, found, hmem, hrefuses, hfirst⟩)
    · refine ⟨name, value, List.mem_cons_self, hrefuses, ?_⟩
      intro other value' e' hother _
      rcases List.mem_cons.mp hother with heq | hother
      · exact bytes_le_bytes_iff.mpr (le_of_eq (Prod.mk.inj heq).1.symm)
      · exact bytes_le_bytes_iff.mpr (le_of_lt (hbelow hother))
    · refine ⟨first, found, List.mem_cons_of_mem _ hmem, hrefuses, ?_⟩
      intro other value' e' hother he'
      rcases List.mem_cons.mp hother with heq | hother
      · obtain ⟨rfl, rfl⟩ := Prod.mk.inj heq
        exact absurd he' (hpasses e')
      · exact hfirst other value' e' hother he'

/-- Where something is refused, something is refused first. -/
theorem exists_firstRefusal_iff (h : table.Sorted) :
    (∃ e, FirstRefusal refuses table e) ↔
      ∃ name value e, (name, value) ∈ table ∧ refuses name value e := by
  constructor
  · rintro ⟨e, name, value, hmem, hrefuses, -⟩
    exact ⟨name, value, e, hmem, hrefuses⟩
  · rintro ⟨name, value, e, hmem, hrefuses⟩
    induction table with
    | nil => exact absurd hmem List.not_mem_nil
    | cons entry rest ih =>
      obtain ⟨first, found⟩ := entry
      by_cases hfirst : ∃ e', refuses first found e'
      · obtain ⟨e', he'⟩ := hfirst
        exact ⟨e', (firstRefusal_cons h).mpr (Or.inl he')⟩
      · have hmem : (name, value) ∈ rest := by
          rcases List.mem_cons.mp hmem with heq | hmem
          · obtain ⟨rfl, rfl⟩ := Prod.mk.inj heq
            exact absurd ⟨e, hrefuses⟩ hfirst
          · exact hmem
        obtain ⟨e', he'⟩ := ih (sorted_cons.mp h).2 hmem
        exact ⟨e', (firstRefusal_cons h).mpr (Or.inr ⟨not_exists.mp hfirst, he'⟩)⟩

end Table

/-! ## Options -/

namespace Rule

variable {rule : Rule} {options : RuleOptions} {name : String} {value : OptionValue}
  {given : Table OptionValue} {e : SettingsError}

/-- The first option that a rule declares under a name. -/
def Declared (rule : Rule) (name : String) (spec : OptionSpec) : Prop :=
  ∃ before behind, rule.options = before ++ spec :: behind ∧ spec.name = name ∧
    ∀ other ∈ before, other.name ≠ name

/-- Why a value cannot be given to an option of a rule. The level is no option that a rule declares. -/
inductive Refuses (rule : Rule) : String → OptionValue → SettingsError → Prop
  | level {value : OptionValue} : value ≠ .str "error" → value ≠ .str "warning" →
      Refuses rule "level" value (.invalidOption rule.id "level" "one of error, warning")
  | undeclared {name : String} {value : OptionValue} : name ≠ "level" →
      name ∉ rule.options.map (·.name) → Refuses rule name value (.unknownOption rule.id name)
  | kind {name : String} {value : OptionValue} {spec : OptionSpec} : name ≠ "level" →
      rule.Declared name spec → spec.kind.accepts value = false →
      Refuses rule name value (.invalidOption rule.id name spec.kind.describe)

theorem option?_eq_some_iff {spec : OptionSpec} :
    rule.option? name = some spec ↔ rule.Declared name spec := by
  rw [option?, List.find?_eq_some_iff_append, Declared]
  constructor
  · rintro ⟨hname, before, behind, hoptions, hbefore⟩
    refine ⟨before, behind, hoptions, by simpa using hname, ?_⟩
    intro other hother
    simpa using hbefore other hother
  · rintro ⟨before, behind, hoptions, hname, hbefore⟩
    refine ⟨by simpa using hname, before, behind, hoptions, ?_⟩
    intro other hother
    simpa using hbefore other hother

theorem option?_eq_none_iff : rule.option? name = none ↔ name ∉ rule.options.map (·.name) := by
  simp [option?, List.find?_eq_none]

theorem refuses_level_iff : rule.Refuses "level" value e ↔
    (value ≠ .str "error" ∧ value ≠ .str "warning") ∧
      e = .invalidOption rule.id "level" "one of error, warning" := by
  constructor
  · rintro (⟨herror, hwarning⟩ | ⟨hlevel, -⟩ | ⟨hlevel, -, -⟩)
    · exact ⟨⟨herror, hwarning⟩, rfl⟩
    · exact absurd rfl hlevel
    · exact absurd rfl hlevel
  · rintro ⟨⟨herror, hwarning⟩, rfl⟩
    exact .level herror hwarning

theorem refuses_other_iff (hlevel : name ≠ "level") : rule.Refuses name value e ↔
    rule.option? name = none ∧ e = .unknownOption rule.id name ∨
      ∃ spec, rule.option? name = some spec ∧ spec.kind.accepts value = false ∧
        e = .invalidOption rule.id name spec.kind.describe := by
  constructor
  · rintro (⟨-, -⟩ | ⟨-, hname⟩ | ⟨-, hspec, hkind⟩)
    · exact absurd rfl hlevel
    · exact Or.inl ⟨option?_eq_none_iff.mpr hname, rfl⟩
    · exact Or.inr ⟨_, option?_eq_some_iff.mpr hspec, hkind, rfl⟩
  · rintro (⟨hname, rfl⟩ | ⟨spec, hspec, hkind, rfl⟩)
    · exact .undeclared hlevel (option?_eq_none_iff.mp hname)
    · exact .kind hlevel (option?_eq_some_iff.mp hspec) hkind

theorem applyOption_eq_error_iff :
    rule.applyOption options name value = .error e ↔ rule.Refuses name value e := by
  unfold applyOption
  split
  · rename_i hname
    subst hname
    rw [levelOption, refuses_level_iff]
    cases value with
    | bool b | int n => simp [eq_comm (a := e)]
    | str s =>
      by_cases hwarning : s = "warning"
      · simp [Level.ofName?, hwarning]
      · by_cases herror : s = "error"
        · simp [Level.ofName?, herror]
        · simp [Level.ofName?, hwarning, herror, eq_comm (a := e)]
  · rename_i hlevel
    rw [refuses_other_iff hlevel]
    cases hspec : rule.option? name with
    | none => simp [eq_comm (a := e)]
    | some spec => cases hkind : spec.kind.accepts value <;> simp [hkind, eq_comm (a := e)]

/-- Giving values one after the other ends at the first that is refused. What is refused does not depend
on what has been given. -/
theorem applyOptions_eq_error_iff (hgiven : given.Sorted) :
    rule.applyOptions options given = .error e ↔ given.FirstRefusal rule.Refuses e := by
  induction given generalizing options with
  | nil => simp [applyOptions, Table.not_firstRefusal_nil]
  | cons entry given ih =>
    obtain ⟨name, value⟩ := entry
    rw [applyOptions, Table.firstRefusal_cons hgiven]
    simp only [← @applyOption_eq_error_iff rule options]
    cases hstep : rule.applyOption options name value with
    | error e' => simp
    | ok middle => simp [ih (Table.sorted_cons.mp hgiven).2]

end Rule

/-! ## Entries -/

namespace Catalog

variable {catalog : Catalog} {id : String} {setting : Setting} {e : SettingsError}

/-- What makes an entry of settings faulty: there is no such rule, or a value cannot be given to an
option of it. -/
inductive IsFaulty (catalog : Catalog) : String → Setting → Prop
  | unknown {id : String} {setting : Setting} : id ∉ catalog.ids → IsFaulty catalog id setting
  | option {rule : Rule} {id : String} {values : Table OptionValue} {name : String}
      {value : OptionValue} {e : SettingsError} : rule ∈ catalog → rule.id = id →
      (name, value) ∈ values → rule.Refuses name value e → IsFaulty catalog id (.options values)

/-- The error of a faulty entry: where options are at fault, that of the first of them. -/
inductive Refuses (catalog : Catalog) : String → Setting → SettingsError → Prop
  | unknown {id : String} {setting : Setting} : id ∉ catalog.ids →
      Refuses catalog id setting (.unknownRule id)
  | option {rule : Rule} {id : String} {values : Table OptionValue} {e : SettingsError} :
      rule ∈ catalog → rule.id = id → values.FirstRefusal rule.Refuses e →
      Refuses catalog id (.options values) e

/-- The entries with an error are the faulty ones. -/
theorem exists_refuses_iff (h : setting.given.Sorted) :
    (∃ e, catalog.Refuses id setting e) ↔ catalog.IsFaulty id setting := by
  constructor
  · rintro ⟨e, hunknown | ⟨hrule, hid, hfirst⟩⟩
    · exact .unknown hunknown
    · obtain ⟨name, value, e, hmem, hrefuses⟩ := (Table.exists_firstRefusal_iff h).mp ⟨e, hfirst⟩
      exact .option hrule hid hmem hrefuses
  · rintro (hunknown | ⟨hrule, hid, hmem, hrefuses⟩)
    · exact ⟨_, .unknown hunknown⟩
    · obtain ⟨e, hfirst⟩ := (Table.exists_firstRefusal_iff h).mpr ⟨_, _, _, hmem, hrefuses⟩
      exact ⟨e, .option hrule hid hfirst⟩

theorem find?_eq_none_iff : catalog.find? id = none ↔ id ∉ catalog.ids := by
  simp [find?, ids, List.find?_eq_none]

end Catalog

/-- A setting of a rule is refused if its options are. -/
theorem Rule.applySetting_eq_error_iff {catalog : Catalog} {rule : Rule} {setting : Setting}
    {e : SettingsError} (hcatalog : catalog.ids.Nodup) (hrule : rule ∈ catalog)
    (hgiven : setting.given.Sorted) :
    rule.applySetting setting = .error e ↔ catalog.Refuses rule.id setting e := by
  have hid : rule.id ∈ catalog.ids := List.mem_map_of_mem hrule
  cases setting with
  | toggle on =>
    refine ⟨fun h => ?_, ?_⟩
    · cases on <;> exact absurd h (by simp [applySetting])
    · rintro ⟨hunknown⟩
      exact absurd hid hunknown
  | options values =>
    rw [applySetting, map_eq_error_iff, resolveOptions]
    refine (applyOptions_eq_error_iff hgiven).trans ⟨.option hrule rfl, ?_⟩
    rintro (hunknown | ⟨hother, hname, hfirst⟩)
    · exact absurd hid hunknown
    · -- A catalog has one rule of a name.
      have hsame := Catalog.find?_id hcatalog hrule
      rw [← hname, Catalog.find?_id hcatalog hother] at hsame
      obtain rfl := Option.some.inj hsame
      exact hfirst

/-! ## Settings -/

/-- Also the options that a toggle gives, which are none, are in order. -/
theorem Settings.Ordered.given {settings : Settings} (h : settings.Ordered) {id : String}
    {setting : Setting} (hmem : (id, setting) ∈ settings) : setting.given.Sorted := by
  cases setting with
  | toggle on => exact List.Pairwise.nil
  | options values => exact h id values hmem

namespace Resolved

variable {catalog : Catalog} {settings : Settings} {e : SettingsError}

/-- Checking entries one after the other ends at the first that is faulty. -/
theorem outcomes_eq_error_iff (hcatalog : catalog.ids.Nodup) (hsettings : settings.Sorted)
    (hordered : settings.Ordered) :
    outcomes catalog settings = .error e ↔ settings.FirstRefusal catalog.Refuses e := by
  induction settings with
  | nil => simp [outcomes, Table.not_firstRefusal_nil]
  | cons entry settings ih =>
    obtain ⟨id, setting⟩ := entry
    have hrest := ih (Table.sorted_cons.mp hsettings).2 fun id' values hmem =>
      hordered id' values (List.mem_cons_of_mem _ hmem)
    have hgiven := hordered.given List.mem_cons_self
    rw [outcomes, Table.firstRefusal_cons hsettings]
    cases hfind : catalog.find? id with
    | none =>
      have hunknown := Catalog.find?_eq_none_iff.mp hfind
      constructor
      · intro h
        obtain rfl := Except.error.inj h
        exact Or.inl (.unknown hunknown)
      · rintro (h | ⟨h, -⟩)
        · rcases h with - | ⟨hrule, hid, -⟩
          · rfl
          · exact absurd (hid ▸ List.mem_map_of_mem hrule) hunknown
        · exact absurd (.unknown hunknown) (h _)
    | some rule =>
      have hrule : rule ∈ catalog := List.mem_of_find?_eq_some hfind
      obtain rfl : rule.id = id := by simpa using List.find?_some hfind
      simp only [← Rule.applySetting_eq_error_iff hcatalog hrule hgiven]
      cases hsetting : rule.applySetting setting with
      | error e' => simp
      | ok outcome => simp [map_eq_error_iff, hrest]

/-- **When settings are refused, and with which error**: if and only if an entry is faulty, and with the
error of the first. -/
theorem resolve_refuses (hcatalog : catalog.ids.Nodup) (hsettings : settings.Sorted)
    (hordered : settings.Ordered) :
    ((∃ config, resolve catalog settings = .ok config) ↔
        ∀ id setting, (id, setting) ∈ settings → ¬catalog.IsFaulty id setting) ∧
      ∀ e, resolve catalog settings = .error e ↔ settings.FirstRefusal catalog.Refuses e := by
  have herror : ∀ e, resolve catalog settings = .error e ↔ settings.FirstRefusal catalog.Refuses e :=
    fun e => map_eq_error_iff.trans (outcomes_eq_error_iff hcatalog hsettings hordered)
  refine ⟨?_, herror⟩
  have hfaulty : (∃ e, resolve catalog settings = .error e) ↔
      ∃ id setting, (id, setting) ∈ settings ∧ catalog.IsFaulty id setting := by
    simp only [herror, Table.exists_firstRefusal_iff hsettings]
    constructor
    · rintro ⟨id, setting, e, hmem, hrefuses⟩
      exact ⟨id, setting, hmem, (Catalog.exists_refuses_iff (hordered.given hmem)).mp ⟨e, hrefuses⟩⟩
    · rintro ⟨id, setting, hmem, hfaulty⟩
      obtain ⟨e, hrefuses⟩ := (Catalog.exists_refuses_iff (hordered.given hmem)).mpr hfaulty
      exact ⟨id, setting, e, hmem, hrefuses⟩
  constructor
  · rintro ⟨config, hconfig⟩ id setting hmem hentry
    obtain ⟨e, he⟩ := hfaulty.mpr ⟨id, setting, hmem, hentry⟩
    exact absurd (hconfig.symm.trans he) (by simp)
  · intro hsound
    cases hresolve : resolve catalog settings with
    | ok config => exact ⟨config, rfl⟩
    | error e =>
      obtain ⟨id, setting, hmem, hentry⟩ := hfaulty.mp ⟨e, hresolve⟩
      exact absurd hentry (hsound id setting hmem)

/-- An option of the wrong kind, one that the rule does not declare, and a rule that is not there. -/
def flawed : Settings :=
  [("document-start", .options [("level", .str "error"), ("present", .bool false)]),
    ("empty-lines", .options [("level", .str "warning"), ("max", .str "two"), ("min", .int 0)]),
    ("no-such-rule", .toggle false)]

theorem resolve_refuses_flawed :
    standardCatalog.ids.Nodup ∧ flawed.Sorted ∧ flawed.Ordered ∧
      resolve standardCatalog flawed = .error (.invalidOption "empty-lines" "max" "an integer") ∧
      flawed.FirstRefusal standardCatalog.Refuses (.invalidOption "empty-lines" "max" "an integer") ∧
      standardCatalog.IsFaulty "no-such-rule" (.toggle false) ∧
      ¬flawed.FirstRefusal standardCatalog.Refuses (.unknownRule "no-such-rule") := by
  have hcatalog : standardCatalog.ids.Nodup := by decide
  have hsorted : flawed.Sorted := by decide
  have hordered : flawed.Ordered := by
    intro id values hmem
    simp only [flawed, List.mem_cons, Prod.mk.injEq, List.not_mem_nil, or_false] at hmem
    rcases hmem with ⟨-, h⟩ | ⟨-, h⟩ | ⟨-, h⟩
    · cases h
      decide
    · cases h
      decide
    · cases h
  have hresolve : resolve standardCatalog flawed =
      .error (.invalidOption "empty-lines" "max" "an integer") := rfl
  obtain ⟨-, herror⟩ := resolve_refuses hcatalog hsorted hordered
  refine ⟨hcatalog, hsorted, hordered, hresolve, (herror _).mp hresolve, .unknown (by decide), ?_⟩
  intro hother
  exact absurd (hresolve.symm.trans ((herror _).mpr hother)) (by simp)

end Resolved

end YamlStyle
