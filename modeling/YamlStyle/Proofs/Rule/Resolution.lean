import YamlStyle.Proofs.Rule.Configuration
import YamlStyle.Proofs.Table.Sorted

/-!
# What settings resolve to

Resolving settings checks them and lays them over the defaults of a catalog. The checking is done entry
by entry and the outcome is put together from tables, so that nothing of the code says at a glance what
comes out. `resolve_settles` says it: which rules run, in which order, and what each of their options is.

What is configured is read off the settings and nothing else. The option `level` is the level of a rule
and never the value of an option, even for a rule that should declare an option of that name.

A rule of this library reads its options by type and has a value at hand for the case that there is none
of that type. Resolved options have one, of the kind that the rule declares, and so that case never
comes.
-/

set_option autoImplicit false

namespace YamlStyle

/-! ## What settings say -/

namespace Setting

/-- Whether a setting switches its rule on. -/
def isOn : Setting → Bool
  | .toggle on => on
  | .options _ => true

/-- The values that a setting gives to options. -/
def given : Setting → Table OptionValue
  | .toggle _ => []
  | .options values => values

end Setting

namespace Settings

/-- The tables of options that settings give are in order. -/
def Ordered (settings : Settings) : Prop :=
  ∀ id values, (id, .options values) ∈ settings → Table.Sorted values

/-- Whether a rule is to run: as its setting says, and by default if it is not mentioned. -/
def asksFor (settings : Settings) (rule : Rule) : Bool :=
  ((settings.get? rule.id).map Setting.isOn).getD rule.enabledByDefault

/-- The values that are given to options of a rule. -/
def givenFor (settings : Settings) (rule : Rule) : Table OptionValue :=
  ((settings.get? rule.id).map Setting.given).getD []

/-- The configured value of an option, or the default. -/
def valueFor (settings : Settings) (rule : Rule) (spec : OptionSpec) : OptionValue :=
  if spec.name = levelOption then spec.default
  else ((settings.givenFor rule).get? spec.name).getD spec.default

theorem sorted_givenFor {settings : Settings} (h : settings.Ordered) (rule : Rule) :
    (settings.givenFor rule).Sorted := by
  unfold givenFor
  cases hsetting : settings.get? rule.id with
  | none => exact List.Pairwise.nil
  | some setting =>
    cases setting with
    | toggle on => exact List.Pairwise.nil
    | options values => exact h rule.id values (Table.mem_of_get?_eq_some hsetting)

end Settings

/-! ## Catalogs -/

/-- Rules with names of their own, whose options have names of their own and defaults that fit. -/
structure Catalog.Declares (catalog : Catalog) : Prop where
  distinct : catalog.ids.Nodup
  options : ∀ rule ∈ catalog, (rule.options.map (·.name)).Nodup
  defaults : ∀ rule ∈ catalog, ∀ spec ∈ rule.options, spec.kind.accepts spec.default = true

/-- Where names are not repeated, an item is the one that is found under its name. -/
theorem find?_name {α : Type} {name : α → String} {items : List α} (h : (items.map name).Nodup)
    {item : α} (hitem : item ∈ items) : items.find? (name · == name item) = some item := by
  induction items with
  | nil => exact absurd hitem List.not_mem_nil
  | cons first items ih =>
    rw [List.map_cons, List.nodup_cons] at h
    obtain ⟨hfresh, hdistinct⟩ := h
    rcases List.mem_cons.mp hitem with rfl | hitem
    · exact List.find?_cons_of_pos (by simp)
    · have hne : name first ≠ name item := by
        intro hname
        apply hfresh
        rw [hname]
        exact List.mem_map_of_mem hitem
      rw [List.find?_cons_of_neg (by simpa using hne)]
      exact ih hdistinct hitem

theorem Catalog.find?_id {catalog : Catalog} (h : catalog.ids.Nodup) {rule : Rule}
    (hrule : rule ∈ catalog) : catalog.find? rule.id = some rule :=
  find?_name h hrule

theorem Level.eq_name_of_ofName? {s : String} {level : Level} (h : ofName? s = some level) :
    s = level.name := by
  unfold ofName? at h
  split at h
  · cases h
    assumption
  · split at h
    · cases h
      assumption
    · exact absurd h (by simp)

/-! ## Options -/

namespace Rule

variable {rule : Rule} {options result : RuleOptions}

theorem of_option? {name : String} {spec : OptionSpec} (h : rule.option? name = some spec) :
    spec ∈ rule.options ∧ spec.name = name := by
  refine ⟨List.mem_of_find?_eq_some h, ?_⟩
  simpa using List.find?_some h

theorem sorted_defaultOptions (rule : Rule) : rule.defaultOptions.values.Sorted := by
  have hempty : Table.Sorted ([] : Table OptionValue) := List.Pairwise.nil
  exact hempty.insertAll _

theorem keys_defaults (rule : Rule) :
    Table.keys (rule.options.map fun spec => (spec.name, spec.default)) =
      rule.options.map (·.name) := by
  rw [Table.keys, List.map_map]
  rfl

theorem get?_defaultOptions_eq (h : (rule.options.map (·.name)).Nodup) (name : String) :
    rule.defaultOptions.get? name =
      Table.get? (rule.options.map fun spec => (spec.name, spec.default)) name := by
  have hget := Table.get?_insertAll (rule.keys_defaults ▸ h) [] name
  rw [Table.get?, Option.or_none] at hget
  exact hget

theorem get?_defaultOptions (h : (rule.options.map (·.name)).Nodup) {spec : OptionSpec}
    (hspec : spec ∈ rule.options) : rule.defaultOptions.get? spec.name = some spec.default := by
  rw [get?_defaultOptions_eq h, Table.get?_eq_some_iff (rule.keys_defaults ▸ h)]
  exact List.mem_map_of_mem hspec

theorem get?_defaultOptions_eq_none_iff (h : (rule.options.map (·.name)).Nodup) {name : String} :
    rule.defaultOptions.get? name = none ↔ name ∉ rule.options.map (·.name) := by
  rw [get?_defaultOptions_eq h, Table.get?_eq_none_iff, keys_defaults]

/-- What becomes of one option that is given. -/
theorem of_applyOption {name : String} {value : OptionValue}
    (h : rule.applyOption options name value = .ok result) :
    (name = levelOption ∧ ∃ level : Level, value = .str level.name ∧
        result = { options with level := level }) ∨
      (name ≠ levelOption ∧ ∃ spec, rule.option? name = some spec ∧ spec.kind.accepts value = true ∧
        result = options.set name value) := by
  unfold applyOption at h
  split at h
  · rename_i hlevel
    split at h
    · rename_i s
      split at h
      · rename_i level hname
        exact Or.inl ⟨hlevel, level, by rw [Level.eq_name_of_ofName? hname], (Except.ok.inj h).symm⟩
      · exact absurd h (by simp)
    · exact absurd h (by simp)
  · rename_i hlevel
    split at h
    · exact absurd h (by simp)
    · rename_i spec hspec
      split at h
      · rename_i haccepts
        exact Or.inr ⟨hlevel, spec, hspec, haccepts, (Except.ok.inj h).symm⟩
      · exact absurd h (by simp)

/-- What giving values to options makes of them. -/
structure Laid (rule : Rule) (options : RuleOptions) (given : Table OptionValue)
    (result : RuleOptions) : Prop where
  sorted : options.values.Sorted → result.values.Sorted
  /-- A value that is given counts, unless it is the level. -/
  answer : ∀ name, result.get? name =
    if name = levelOption then options.get? name else (given.get? name).or (options.get? name)
  fits : ∀ name value, name ≠ levelOption → given.get? name = some value →
    ∃ spec, rule.option? name = some spec ∧ spec.kind.accepts value = true
  level : (∃ level : Level, given.get? levelOption = some (.str level.name) ∧ result.level = level) ∨
    given.get? levelOption = none ∧ result.level = options.level

theorem laid_nil (rule : Rule) (options : RuleOptions) : Laid rule options [] options where
  sorted h := h
  answer name := by simp [Table.get?]
  fits name value _ h := absurd h (by simp [Table.get?])
  level := Or.inr ⟨rfl, rfl⟩

/-- One option more in front. -/
theorem Laid.cons {middle : RuleOptions} {name : String} {value : OptionValue}
    {given : Table OptionValue} (hfresh : name ∉ given.keys)
    (hstep : rule.applyOption options name value = .ok middle) (h : Laid rule middle given result) :
    Laid rule options ((name, value) :: given) result := by
  rw [← Table.get?_eq_none_iff] at hfresh
  rcases of_applyOption hstep with
    ⟨rfl, level, rfl, rfl⟩ | ⟨hlevel, spec, hspec, haccepts, rfl⟩
  · refine ⟨h.sorted, ?_, ?_, ?_⟩
    · intro other
      rw [h.answer, Table.get?]
      by_cases hother : other = levelOption
      · rw [if_pos hother, if_pos hother]
        rfl
      · rw [if_neg hother, if_neg hother, if_neg (Ne.symm hother)]
        rfl
    · intro other value hother hget
      rw [Table.get?, if_neg (Ne.symm hother)] at hget
      exact h.fits other value hother hget
    · -- The level is given once, so nothing that follows changes it.
      refine Or.inl ⟨level, by rw [Table.get?, if_pos rfl], ?_⟩
      rcases h.level with ⟨other, hother, -⟩ | ⟨-, hsame⟩
      · exact absurd (hfresh.symm.trans hother) (by simp)
      · exact hsame
  · refine ⟨fun hsorted => h.sorted (hsorted.insert name value), ?_, ?_, ?_⟩
    · intro other
      rw [h.answer, Table.get?]
      have hset : (options.set name value).get? other =
          if other = name then some value else options.get? other := Table.get?_insert ..
      rw [hset]
      by_cases hother : other = name
      · subst hother
        rw [if_neg hlevel, if_neg hlevel, if_pos rfl, if_pos rfl, hfresh]
        rfl
      · rw [if_neg hother, if_neg (Ne.symm hother)]
    · intro other value' hother hget
      rw [Table.get?] at hget
      split at hget
      · rename_i hname
        subst hname
        obtain rfl := Option.some.inj hget
        exact ⟨spec, hspec, haccepts⟩
      · exact h.fits other value' hother hget
    · rw [Table.get?, if_neg hlevel]
      exact h.level

/-- Giving values one after the other. -/
theorem laid_of_applyOptions {given : Table OptionValue} (hgiven : given.keys.Nodup)
    (h : rule.applyOptions options given = .ok result) : Laid rule options given result := by
  induction given generalizing options with
  | nil =>
    obtain rfl := Except.ok.inj h
    exact laid_nil rule options
  | cons entry given ih =>
    obtain ⟨name, value⟩ := entry
    obtain ⟨hfresh, hgiven⟩ := List.nodup_cons.mp hgiven
    rw [applyOptions] at h
    cases hstep : rule.applyOption options name value with
    | error e =>
      rw [hstep] at h
      exact absurd h (by simp)
    | ok middle =>
      rw [hstep] at h
      exact (ih hgiven h).cons hfresh hstep

/-- A setting switches a rule off, or lays its values over the defaults. -/
theorem applySetting_cases {setting : Setting} {outcome : Option RuleOptions}
    (hgiven : setting.given.keys.Nodup) (h : rule.applySetting setting = .ok outcome) :
    (setting.isOn = false ∧ outcome = none) ∨
      (setting.isOn = true ∧ ∃ options, outcome = some options ∧
        Laid rule rule.defaultOptions setting.given options) := by
  cases setting with
  | toggle on =>
    cases on with
    | false => exact Or.inl ⟨rfl, (Except.ok.inj h).symm⟩
    | true => exact Or.inr ⟨rfl, _, (Except.ok.inj h).symm, laid_nil rule _⟩
  | options values =>
    rw [applySetting] at h
    cases hresolve : rule.resolveOptions values with
    | error e =>
      rw [hresolve] at h
      exact absurd h (by simp [Except.map])
    | ok options =>
      rw [hresolve] at h
      exact Or.inr ⟨rfl, options, (Except.ok.inj h).symm, laid_of_applyOptions hgiven hresolve⟩

end Rule

/-! ## Rules -/

namespace Resolved

variable {catalog : Catalog} {settings : Settings} {decided : Table (Option RuleOptions)} {rule : Rule}

/-- What was decided about a rule is what its setting makes of it. -/
theorem outcomes_cases (h : outcomes catalog settings = .ok decided) (id : String) :
    (settings.get? id = none ∧ decided.get? id = none) ∨
      ∃ setting rule outcome, settings.get? id = some setting ∧ catalog.find? id = some rule ∧
        rule.applySetting setting = .ok outcome ∧ decided.get? id = some outcome := by
  induction settings generalizing decided with
  | nil =>
    obtain rfl := Except.ok.inj h
    exact Or.inl ⟨rfl, rfl⟩
  | cons entry settings ih =>
    obtain ⟨first, setting⟩ := entry
    rw [outcomes] at h
    cases hrule : catalog.find? first with
    | none =>
      rw [hrule] at h
      exact absurd h (by simp)
    | some rule =>
      cases hsetting : rule.applySetting setting with
      | error e =>
        simp only [hrule, hsetting] at h
        exact absurd h (by simp)
      | ok outcome =>
        cases hrest : outcomes catalog settings with
        | error e =>
          simp only [hrule, hsetting, hrest] at h
          exact absurd h (by simp [Except.map])
        | ok rest =>
          simp only [hrule, hsetting, hrest] at h
          obtain rfl := Except.ok.inj h
          rw [Table.get?, Table.get?]
          by_cases hid : first = id
          · subst hid
            rw [if_pos rfl, if_pos rfl]
            exact Or.inr ⟨setting, rule, outcome, rfl, hrule, hsetting, rfl⟩
          · rw [if_neg hid, if_neg hid]
            exact ih hrest

/-- **What becomes of a rule of the catalog**: it does not run, or it runs with what is configured laid
over its defaults. -/
theorem optionsOf_cases (hcatalog : catalog.ids.Nodup) (hsettings : settings.Ordered)
    (h : outcomes catalog settings = .ok decided) (hrule : rule ∈ catalog) :
    (settings.asksFor rule = false ∧ optionsOf decided rule = none) ∨
      (settings.asksFor rule = true ∧ ∃ options, optionsOf decided rule = some options ∧
        rule.Laid rule.defaultOptions (settings.givenFor rule) options) := by
  rw [optionsOf, Settings.asksFor, Settings.givenFor]
  rcases outcomes_cases h rule.id with
    ⟨hnone, hdecided⟩ | ⟨setting, other, outcome, hsetting, hfind, houtcome, hdecided⟩
  · rw [hnone, hdecided]
    cases hdefault : rule.enabledByDefault with
    | false => exact Or.inl ⟨rfl, rfl⟩
    | true => exact Or.inr ⟨rfl, _, rfl, Rule.laid_nil rule _⟩
  · obtain rfl := Option.some.inj ((Catalog.find?_id hcatalog hrule).symm.trans hfind)
    have hgiven := (Settings.sorted_givenFor hsettings rule).nodup
    rw [Settings.givenFor, hsetting] at hgiven
    rw [hsetting, hdecided]
    exact Rule.applySetting_cases hgiven houtcome

theorem select_rules (catalog : Catalog) (decided : Table (Option RuleOptions)) :
    (select catalog decided).rules.map (·.1) =
      catalog.filter fun rule => (optionsOf decided rule).isSome := by
  show (catalog.filterMap _).map _ = _
  rw [List.map_filterMap, ← List.filterMap_eq_filter]
  congr 1
  funext rule
  cases hoptions : optionsOf decided rule <;> simp [Option.guard, hoptions]

/-- Without settings, what runs is what runs by default. -/
theorem resolve_nil (catalog : Catalog) : resolve catalog [] = .ok (defaults catalog) := by
  have hselect : select catalog [] = defaults catalog := by
    rw [select, defaults, ← List.filterMap_eq_filter, List.map_filterMap]
    congr 2
    funext rule
    cases hdefault : rule.enabledByDefault <;> simp [optionsOf, Table.get?, Option.guard, hdefault]
  rw [← hselect]
  rfl

end Resolved

/-! ## The theorem -/

/-- The options with which a rule runs are those that settings ask for. -/
structure RuleOptions.Settled (settings : Settings) (rule : Rule) (options : RuleOptions) : Prop where
  sorted : options.values.Sorted
  names : ∀ name, name ∈ options.values.keys ↔ name ∈ rule.options.map (·.name)
  values : ∀ spec ∈ rule.options, options.get? spec.name = some (settings.valueFor rule spec)
  typed : ∀ spec ∈ rule.options, spec.kind.accepts (settings.valueFor rule spec) = true
  level :
    (∃ level : Level, (settings.givenFor rule).get? levelOption = some (.str level.name) ∧
      options.level = level) ∨
    (settings.givenFor rule).get? levelOption = none ∧ options.level = .error

/-- What runs is what settings ask for. -/
structure Resolved.Settled (catalog : Catalog) (settings : Settings) (config : Resolved) : Prop where
  /-- In the order of the catalog. -/
  rules : config.rules.map (·.1) = catalog.filter settings.asksFor
  once : (config.rules.map (·.1.id)).Nodup
  options : ∀ rule options, (rule, options) ∈ config.rules → options.Settled settings rule
  known : config.known = catalog.ids

/-- The rules of this library are built from values of their options and from nothing else. -/
structure Resolved.Legible (config : Resolved) : Prop where
  documentStart : ∀ options, (DocumentStart.rule, options) ∈ config.rules →
    ∃ present, options.bool? "present" = some present ∧
      DocumentStart.rule.build options =
        .ok (.token fun w => .ok (DocumentStart.check present w).toList)
  emptyLines : ∀ options, (EmptyLines.rule, options) ∈ config.rules →
    ∃ limits : EmptyLines.Limits, options.int? "max" = some limits.inside ∧
      options.int? "max-start" = some limits.atStart ∧ options.int? "max-end" = some limits.atEnd ∧
      EmptyLines.rule.build options =
        .ok (.line fun _ line => .ok (EmptyLines.check limits line).toList)
  trailingSpaces : ∀ options, (TrailingSpaces.rule, options) ∈ config.rules →
    TrailingSpaces.rule.build options = .ok (.line fun _ line => .ok (TrailingSpaces.check line).toList)

theorem Rule.Laid.settled {settings : Settings} {rule : Rule} {options : RuleOptions}
    (hnames : (rule.options.map (·.name)).Nodup)
    (hdefaults : ∀ spec ∈ rule.options, spec.kind.accepts spec.default = true)
    (h : rule.Laid rule.defaultOptions (settings.givenFor rule) options) :
    options.Settled settings rule where
  sorted := h.sorted rule.sorted_defaultOptions
  names name := by
    rw [← not_iff_not, ← Table.get?_eq_none_iff, ← get?_defaultOptions_eq_none_iff hnames]
    show options.get? name = none ↔ _
    rw [h.answer]
    by_cases hlevel : name = levelOption
    · rw [if_pos hlevel]
    · rw [if_neg hlevel, Option.or_eq_none_iff, and_iff_right_iff_imp]
      intro hnone
      -- A value is given to declared options only.
      cases hgiven : (settings.givenFor rule).get? name with
      | none => rfl
      | some value =>
        obtain ⟨spec, hspec, -⟩ := h.fits name value hlevel hgiven
        obtain ⟨hmem, rfl⟩ := of_option? hspec
        exact absurd (List.mem_map_of_mem hmem) ((get?_defaultOptions_eq_none_iff hnames).mp hnone)
  values spec hspec := by
    rw [h.answer, get?_defaultOptions hnames hspec, Settings.valueFor]
    by_cases hlevel : spec.name = levelOption
    · rw [if_pos hlevel, if_pos hlevel]
    · rw [if_neg hlevel, if_neg hlevel]
      cases (settings.givenFor rule).get? spec.name <;> rfl
  typed spec hspec := by
    rw [Settings.valueFor]
    split
    · exact hdefaults spec hspec
    · rename_i hlevel
      cases hgiven : (settings.givenFor rule).get? spec.name with
      | none => exact hdefaults spec hspec
      | some value =>
        obtain ⟨spec', hspec', haccepts⟩ := h.fits spec.name value hlevel hgiven
        obtain rfl := Option.some.inj ((find?_name hnames hspec).symm.trans hspec')
        exact haccepts
  level := h.level

theorem Catalog.declares_standard : standardCatalog.Declares :=
  ⟨by decide, by decide, by decide⟩

namespace RuleOptions

variable {settings : Settings} {rule : Rule} {options : RuleOptions}

theorem Settled.exists_bool (h : options.Settled settings rule) {spec : OptionSpec}
    (hspec : spec ∈ rule.options) (hkind : spec.kind = .bool) :
    ∃ b, options.bool? spec.name = some b := by
  have htyped := h.typed spec hspec
  rw [hkind] at htyped
  rw [bool?, h.values spec hspec]
  cases hvalue : settings.valueFor rule spec with
  | bool b => exact ⟨b, rfl⟩
  | int n | str s =>
    rw [hvalue] at htyped
    exact absurd htyped (by simp [OptionKind.accepts])

theorem Settled.exists_int (h : options.Settled settings rule) {spec : OptionSpec}
    (hspec : spec ∈ rule.options) (hkind : spec.kind = .int) :
    ∃ n, options.int? spec.name = some n := by
  have htyped := h.typed spec hspec
  rw [hkind] at htyped
  rw [int?, h.values spec hspec]
  cases hvalue : settings.valueFor rule spec with
  | int n => exact ⟨n, rfl⟩
  | bool b | str s =>
    rw [hvalue] at htyped
    exact absurd htyped (by simp [OptionKind.accepts])

end RuleOptions

namespace Resolved

variable {catalog : Catalog} {settings : Settings} {config : Resolved}

theorem settled_of_resolve (hcatalog : catalog.Declares) (hsettings : settings.Ordered)
    (h : resolve catalog settings = .ok config) : Settled catalog settings config := by
  have hover : Over catalog config := .bySettings h
  rw [resolve] at h
  cases hdecided : outcomes catalog settings with
  | error e =>
    rw [hdecided] at h
    exact absurd h (by simp [Except.map])
  | ok decided =>
    rw [hdecided] at h
    obtain rfl := Except.ok.inj h
    have hcases := fun (rule : Rule) (hrule : rule ∈ catalog) =>
      optionsOf_cases hcatalog.distinct hsettings hdecided hrule
    refine ⟨?_, ?_, ?_, rfl⟩
    · rw [select_rules]
      apply List.filter_congr
      intro rule hrule
      rcases hcases rule hrule with ⟨hasks, hoptions⟩ | ⟨hasks, options, hoptions, -⟩
      · rw [hasks, hoptions]
        rfl
      · rw [hasks, hoptions]
        rfl
    · have hids := (hover.sublist.map Rule.id).nodup hcatalog.distinct
      rwa [List.map_map] at hids
    · intro rule options hentry
      obtain ⟨other, hother, hoptions⟩ := List.mem_filterMap.mp hentry
      obtain ⟨options', hoptions', hpair⟩ := Option.map_eq_some_iff.mp hoptions
      obtain ⟨rfl, rfl⟩ := Prod.mk.inj hpair
      rcases hcases other hother with ⟨-, hnone⟩ | ⟨-, laid, hlaid, hsettled⟩
      · exact absurd (hnone.symm.trans hoptions') (by simp)
      · obtain rfl := Option.some.inj (hlaid.symm.trans hoptions')
        exact hsettled.settled (hcatalog.options other hother) (hcatalog.defaults other hother)

theorem Settled.legible (h : Settled catalog settings config) : Legible config where
  documentStart options hentry := by
    obtain ⟨present, hpresent⟩ :=
      (h.options _ options hentry).exists_bool List.mem_cons_self rfl
    refine ⟨present, hpresent, ?_⟩
    show Except.ok (Checker.token fun w =>
      .ok (DocumentStart.check ((options.bool? "present").getD true) w).toList) = _
    rw [show options.bool? "present" = some present from hpresent]
    rfl
  emptyLines options hentry := by
    have hsettled := h.options _ options hentry
    obtain ⟨inside, hinside⟩ := hsettled.exists_int (.head _) rfl
    obtain ⟨atStart, hstart⟩ := hsettled.exists_int (.tail _ (.head _)) rfl
    obtain ⟨atEnd, hend⟩ := hsettled.exists_int (.tail _ (.tail _ (.head _))) rfl
    have hlimits : EmptyLines.Limits.ofOptions options = ⟨inside, atStart, atEnd⟩ := by
      rw [EmptyLines.Limits.ofOptions]
      simp only at hinside hstart hend
      rw [hinside, hstart, hend]
      rfl
    refine ⟨⟨inside, atStart, atEnd⟩, hinside, hstart, hend, ?_⟩
    rw [← hlimits]
    rfl
  trailingSpaces options _ := rfl

/-- **What settings resolve to**: the rules that they ask for, each with a value of the declared kind for
every option that it declares. -/
theorem resolve_settles (hcatalog : catalog.Declares) (hsettings : settings.Ordered)
    (h : resolve catalog settings = .ok config) :
    Settled catalog settings config ∧ Legible config ∧
      resolve catalog [] = .ok (defaults catalog) ∧ standardCatalog.Declares := by
  have hsettled := settled_of_resolve hcatalog hsettings h
  exact ⟨hsettled, hsettled.legible, resolve_nil catalog, Catalog.declares_standard⟩

/-- A rule that is off by default and configured with a level, one that is given an option, and one that
is switched off. -/
def mixed : Settings :=
  [("document-start", .options [("level", .str "warning"), ("present", .bool false)]),
    ("empty-lines", .options [("max-end", .int 1)]), ("trailing-spaces", .toggle false)]

theorem resolve_settles_mixed :
    mixed.Ordered ∧ standardCatalog.Declares ∧ ∃ config, resolve standardCatalog mixed = .ok config ∧
      config.rules.map (·.1) = [DocumentStart.rule, EmptyLines.rule] ∧
      (∀ options, (DocumentStart.rule, options) ∈ config.rules →
        options.get? "present" = some (.bool false) ∧ options.level = .warning) ∧
      ∀ options, (EmptyLines.rule, options) ∈ config.rules →
        options.get? "max" = some (.int 2) ∧ options.get? "max-start" = some (.int 0) ∧
          options.get? "max-end" = some (.int 1) ∧ options.level = .error := by
  have hmixed : mixed.Ordered := by
    intro id values hmem
    simp only [mixed, List.mem_cons, Prod.mk.injEq, List.not_mem_nil, or_false] at hmem
    rcases hmem with ⟨-, h⟩ | ⟨-, h⟩ | ⟨-, h⟩
    · cases h
      decide
    · cases h
      decide
    · cases h
  have hresolve : ∃ config, resolve standardCatalog mixed = .ok config := ⟨_, rfl⟩
  obtain ⟨config, hconfig⟩ := hresolve
  obtain ⟨hsettled, -, -, hcatalog⟩ := resolve_settles Catalog.declares_standard hmixed hconfig
  refine ⟨hmixed, hcatalog, config, hconfig, hsettled.rules, ?_, ?_⟩
  · intro options hentry
    have hoptions := hsettled.options _ options hentry
    refine ⟨hoptions.values _ (.head _), ?_⟩
    rcases hoptions.level with ⟨level, hgiven, hlevel⟩ | ⟨hnone, -⟩
    · rw [hlevel]
      revert hgiven
      cases level <;> decide
    · exact absurd hnone (by decide)
  · intro options hentry
    have hoptions := hsettled.options _ options hentry
    refine ⟨hoptions.values _ (.head _), hoptions.values _ (.tail _ (.head _)),
      hoptions.values _ (.tail _ (.tail _ (.head _))), ?_⟩
    rcases hoptions.level with ⟨level, hgiven, -⟩ | ⟨-, hlevel⟩
    · exact absurd hgiven (by cases level <;> decide)
    · exact hlevel

end Resolved

end YamlStyle
