import YamlStyle.Proofs.Rule.Answers
import YamlStyle.Rule.Catalog
import YamlStyle.Rule.Resolve

/-!
# Catalogs and configurations

A catalog is **well-formed** if its rules can be told from each other and from the engine by name, and
inspect what they say they inspect. The catalog of this library is.

A configuration over a catalog is what settings resolve to, or what runs without settings. Either way
it picks rules of the catalog in their order, so that a rule of a well-formed catalog runs once or not
at all, and it knows the names of all of them.
-/

set_option autoImplicit false

namespace YamlStyle

/-- Rules that can be told apart by name, from each other and from the engine, and that are truthful. -/
structure Catalog.WellFormed (catalog : Catalog) : Prop where
  distinct : catalog.ids.Nodup
  unreserved : ∀ rule ∈ catalog, rule.id ≠ Problem.syntaxRule ∧ rule.id ≠ Problem.internalRule
  truthful : ∀ rule ∈ catalog, rule.Truthful

theorem truthful_of_build_eq {rule : Rule} {build : RuleOptions → Checker}
    (h : ∀ options, rule.build options = .ok (build options))
    (hgranularity : ∀ options, (build options).granularity = rule.granularity) : rule.Truthful := by
  intro options checker hbuild
  obtain rfl := Except.ok.inj ((h options).symm.trans hbuild)
  exact hgranularity options

theorem wellFormed_standardCatalog : standardCatalog.WellFormed where
  distinct := by decide
  unreserved := by decide
  truthful rule hrule := by
    simp only [standardCatalog, List.mem_cons, List.not_mem_nil, or_false] at hrule
    rcases hrule with rfl | rfl | rfl <;>
      exact truthful_of_build_eq (fun _ => rfl) fun _ => rfl

namespace Resolved

/-- The configurations over a catalog. -/
inductive Over (catalog : Catalog) : Resolved → Prop
  | byDefault : Over catalog (defaults catalog)
  | bySettings {settings : Settings} {config : Resolved} :
      resolve catalog settings = .ok config → Over catalog config

variable {catalog : Catalog} {config : Resolved}

theorem exists_select_of_resolve {settings : Settings} (h : resolve catalog settings = .ok config) :
    ∃ decided, config = select catalog decided := by
  rw [resolve] at h
  cases hdecided : outcomes catalog settings with
  | error e => simp [hdecided, Except.map] at h
  | ok decided =>
    rw [hdecided] at h
    exact ⟨decided, (Except.ok.inj h).symm⟩

theorem select_sublist (catalog : Catalog) (decided : Table (Option RuleOptions)) :
    ((select catalog decided).rules.map (·.1)).Sublist catalog := by
  show ((List.filterMap _ catalog).map _).Sublist catalog
  induction catalog with
  | nil => exact .slnil
  | cons rule catalog ih =>
    cases hoptions : optionsOf decided rule with
    | none =>
      rw [List.filterMap_cons_none (by rw [hoptions]; rfl)]
      exact ih.cons rule
    | some options =>
      rw [List.filterMap_cons_some (b := (rule, options)) (by rw [hoptions]; rfl)]
      exact ih.cons_cons rule

namespace Over

theorem known_eq (h : Over catalog config) : config.known = catalog.ids := by
  cases h with
  | byDefault => rfl
  | bySettings h =>
    obtain ⟨decided, rfl⟩ := exists_select_of_resolve h
    rfl

theorem sublist (h : Over catalog config) : (config.rules.map (·.1)).Sublist catalog := by
  cases h with
  | byDefault =>
    have hrules : (defaults catalog).rules.map (·.1) = catalog.filter (·.enabledByDefault) := by
      rw [defaults, List.map_map]
      exact List.map_id _
    rw [hrules]
    exact List.filter_sublist
  | bySettings h =>
    obtain ⟨decided, rfl⟩ := exists_select_of_resolve h
    exact select_sublist catalog decided

theorem mem_catalog (h : Over catalog config) {entry : Rule × RuleOptions}
    (hentry : entry ∈ config.rules) : entry.1 ∈ catalog :=
  h.sublist.subset (List.mem_map_of_mem hentry)

/-- No two rules that run have the same name. -/
theorem pairwise_id_ne (h : Over catalog config) (hcatalog : catalog.WellFormed) :
    config.rules.Pairwise fun a b => a.1.id ≠ b.1.id := by
  have hids : ((config.rules.map (·.1)).map (·.id)).Nodup :=
    (h.sublist.map _).nodup hcatalog.distinct
  rwa [List.map_map, List.Nodup, List.pairwise_map] at hids

end Over

end Resolved

/-- A linter that settings ask for runs rules of the catalog, on the tokens of the YAML scanner. -/
theorem Linter.of_ofSettings {settings : Settings} {linter : Linter}
    (h : ofSettings settings = .ok linter) :
    linter.tokenizer = yamlScanner ∧ ∀ entry ∈ linter.config.rules, entry.1 ∈ standardCatalog := by
  rw [ofSettings] at h
  cases hconfig : Resolved.resolve standardCatalog settings with
  | error e =>
    rw [hconfig] at h
    exact absurd h (by simp [Except.map])
  | ok config =>
    rw [hconfig] at h
    obtain rfl := Except.ok.inj h
    refine ⟨rfl, ?_⟩
    intro entry hentry
    exact (Resolved.Over.bySettings hconfig).mem_catalog hentry

end YamlStyle
