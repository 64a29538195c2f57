import YamlStyle.Config.Load
import YamlStyle.Proofs.Rule.Prevail
import YamlStyle.Proofs.Value.Toml

/-!
# Layers of a configuration

A configuration is laid together from many layers and only then read. `Layered` says what it comes to
without any laying together: each setting is what the last layer says that has it, and each rule has the
setting that prevails. `load_layered` is that a configuration is loaded if and only if it is that one,
and that there is one whenever the settings other than those of rules can be read.

The readers make orderly tables, so a stack of layers answers for each name with the pile of what the
layers say under it (`Value.get?_overlayAll`), and names do not meet. A reading that takes no tables
then only sees the last value (`exists_counts_iff_settles`). There is one reading that takes them: a
level can be written as a table with its name in it, and so two levels on top of each other can become
one table, of which the first name counts, whichever layer it is from (`load_clash`).
-/

set_option autoImplicit false

namespace YamlStyle

open Value (Orderly isTable pile given overlayAll)

/-! ## Settings one by one -/

namespace Config

variable {layers : List Value}

/-- A setting is what the last layer says that has it. -/
def Settles {α : Type} (stack : List Value) (name : String)
    (read : Value → Except (List String × Mismatch) α) (a : α) : Prop :=
  ∃ v, (given stack name).getLast? = some v ∧ read v = .ok a

theorem readEntry_eq_ok_iff {α : Type} {v w : Value} {name : String} (hget : v.get? name = some w)
    (absent : α) (read : Value → Except (List String × Mismatch) α) (a : α) :
    readEntry v name absent read = .ok a ↔ read w = .ok a := by
  rw [readEntry, hget]
  cases hread : read w with
  | ok b => simp [hread, Except.mapError]
  | error e => simp [hread, Except.mapError]

/-- A name that is given at the bottom is read from the value that counts. -/
theorem readEntry_eq_ok_iff_counts {α : Type} {base lowest : Value} {name : String}
    (hstack : ∀ layer ∈ base :: layers, layer.isTable = true ∧ layer.Orderly)
    (hbase : base.get? name = some lowest) (absent : α)
    (read : Value → Except (List String × Mismatch) α) (a : α) :
    readEntry (overlayAll base layers) name absent read = .ok a ↔
      ∃ v, Value.Counts (given (base :: layers) name) v ∧ read v = .ok a := by
  have horderly : ∀ w ∈ given (base :: layers) name, w.Orderly := by
    intro w hw
    obtain ⟨layer, hlayer, hw⟩ := List.mem_filterMap.mp hw
    exact (hstack layer hlayer).2.get? hw
  have hgiven : given (base :: layers) name = lowest :: given layers name := by
    simp [given, hbase]
  have hpile : pile (given (base :: layers) name) = some (overlayAll lowest (given layers name)) := by
    rw [hgiven, pile]
  rw [readEntry_eq_ok_iff ((Value.get?_overlayAll hstack name).trans hpile)]
  constructor
  · intro h
    exact ⟨_, Value.counts_of_pile horderly hpile, h⟩
  · rintro ⟨v, hv, h⟩
    obtain rfl := Option.some.inj (hpile.symm.trans (hv.pile_eq horderly))
    exact h

/-- Where no table can be read, it does not matter that tables are united. -/
theorem exists_counts_iff_settles {α : Type} {stack : List Value} {name : String}
    {read : Value → Except (List String × Mismatch) α}
    (hread : ∀ entries a, read (.table entries) ≠ .ok a) (a : α) :
    (∃ v, Value.Counts (given stack name) v ∧ read v = .ok a) ↔ Settles stack name read a := by
  constructor
  · rintro ⟨v, hv, h⟩
    refine ⟨v, ?_, h⟩
    generalize given stack name = vs at hv
    cases hv with
    | last => simp
    | united => exact absurd h (hread _ a)
  · rintro ⟨v, hv, h⟩
    refine ⟨v, ?_, h⟩
    obtain ⟨below, hbelow⟩ := List.getLast?_eq_some_iff.mp hv
    rw [hbelow]
    apply Value.Counts.last
    left
    cases htable : v.isTable with
    | false => rfl
    | true =>
      obtain ⟨entries, rfl⟩ := Value.exists_eq_table htable
      exact absurd h (hread entries a)

theorem readEntry_eq_ok_iff_settles {α : Type} {base lowest : Value} {name : String}
    {read : Value → Except (List String × Mismatch) α}
    (hstack : ∀ layer ∈ base :: layers, layer.isTable = true ∧ layer.Orderly)
    (hbase : base.get? name = some lowest) (hread : ∀ entries a, read (.table entries) ≠ .ok a)
    (absent a : α) :
    readEntry (overlayAll base layers) name absent read = .ok a ↔
      Settles (base :: layers) name read a := by
  rw [readEntry_eq_ok_iff_counts hstack hbase, exists_counts_iff_settles hread]

/-! ## Rules -/

/-- What the layers of a stack say about a rule, the lowest first. -/
def said (stack : List Value) (id : String) : List Setting :=
  (given (given stack "rules") id).filterMap Setting.ofValue?

/-- A layer speaks of rules in words and tables of options, if at all. -/
def SpeaksPlainly (layer : Value) : Prop :=
  ∀ rules, layer.get? "rules" = some rules →
    rules.isTable = true ∧ ∀ id v, rules.get? id = some v → ∃ s, Setting.Written v s

/-- `SpeaksPlainly`, computed. -/
def speaksPlainly (layer : Value) : Bool :=
  match layer.get? "rules" with
  | none => true
  | some (.table entries) => entries.all fun (_, v) => Setting.isWritten v
  | some _ => false

theorem speaksPlainly_sound {layer : Value} (h : speaksPlainly layer = true) :
    SpeaksPlainly layer := by
  intro rules hrules
  rw [speaksPlainly, hrules] at h
  cases rules with
  | table entries =>
    refine ⟨rfl, ?_⟩
    intro id v hv
    exact Setting.isWritten_iff.mp (List.all_eq_true.mp h (id, v) (Table.mem_of_get?_eq_some hv))
  | null | bool | int | float | char | str | list => exact absurd h (by simp)

/-- Every rule that a stack speaks of has the setting that prevails, and no other rule has one. -/
structure RulesSettle (stack : List Value) (rules : Option Settings) : Prop where
  isSome_iff : rules.isSome = true ↔ ∃ v ∈ given stack "rules", v.isTable = true
  sorted : (rules.getD []).Sorted
  unsaid : ∀ id, (rules.getD []).get? id = none ↔ said stack id = []
  prevails : ∀ id s, (rules.getD []).get? id = some s → Setting.Prevails (said stack id) s

theorem RulesSettle.unique {stack : List Value} {rules rules' : Option Settings}
    (h : RulesSettle stack rules) (h' : RulesSettle stack rules') : rules = rules' := by
  have hget : rules.getD [] = rules'.getD [] := by
    refine h.sorted.ext h'.sorted fun id => ?_
    cases hs : (rules.getD []).get? id with
    | none => rw [(h'.unsaid id).mpr ((h.unsaid id).mp hs)]
    | some s =>
      cases hs' : (rules'.getD []).get? id with
      | none =>
        rw [(h.unsaid id).mpr ((h'.unsaid id).mp hs')] at hs
        exact absurd hs (by simp)
      | some s' => rw [(h.prevails id s hs).unique (h'.prevails id s' hs')]
  have hsome : rules.isSome = rules'.isSome :=
    Bool.eq_iff_iff.mpr (h.isSome_iff.trans h'.isSome_iff.symm)
  cases rules with
  | none =>
    cases rules' with
    | none => rfl
    | some _ => exact absurd hsome (by simp)
  | some settings =>
    cases rules' with
    | none => exact absurd hsome (by simp)
    | some settings' => exact congrArg some hget

/-- A table in which layers speak of rules. -/
structure IsPlain (table : Value) : Prop where
  isTable : table.isTable = true
  orderly : table.Orderly
  written : ∀ id v, table.get? id = some v → ∃ s, Setting.Written v s

theorem isPlain_of_mem_given (hstack : ∀ layer ∈ layers, layer.isTable = true ∧ layer.Orderly)
    (hlayers : ∀ layer ∈ layers, SpeaksPlainly layer) : ∀ t ∈ given layers "rules", IsPlain t := by
  intro t ht
  obtain ⟨layer, hlayer, hget⟩ := List.mem_filterMap.mp ht
  obtain ⟨htable, hwritten⟩ := hlayers layer hlayer t hget
  exact ⟨htable, (hstack layer hlayer).2.get? hget, hwritten⟩

/-- Tables of rules, laid over each other and read. -/
theorem exists_readRules {tables : List Value} (hne : tables ≠ [])
    (htables : ∀ t ∈ tables, IsPlain t) :
    ∃ entries settings, pile tables = some (.table entries) ∧
      readRules (.table entries) = .ok settings ∧ settings.Sorted ∧
      (∀ id, settings.get? id = none ↔ (given tables id).filterMap Setting.ofValue? = []) ∧
      ∀ id s, settings.get? id = some s →
        Setting.Prevails ((given tables id).filterMap Setting.ofValue?) s := by
  obtain ⟨entries, hpile, horderly, hget⟩ :=
    Value.pile_tables hne fun t ht => ⟨(htables t ht).isTable, (htables t ht).orderly⟩
  have hgiven : ∀ id, ∀ v ∈ given tables id, v.Orderly ∧ ∃ s, Setting.Written v s := by
    intro id v hv
    obtain ⟨t, ht, hv⟩ := List.mem_filterMap.mp hv
    exact ⟨(htables t ht).orderly.get? hv, (htables t ht).written id v hv⟩
  have hentry : ∀ id v, entries.get? id = some v → ∃ s, Setting.Written v s ∧
      Setting.Prevails ((given tables id).filterMap Setting.ofValue?) s := by
    intro id v hv
    rw [hget] at hv
    exact (Setting.exists_prevails (hgiven id) hv).2
  obtain ⟨settings, hsettings, hreads⟩ := exists_readSettings fun e he => by
    obtain ⟨s, hs, -⟩ := hentry e.1 e.2 ((Table.get?_eq_some_iff horderly.sorted.nodup).mpr he)
    exact ⟨s, hs⟩
  refine ⟨entries, settings, hpile, hsettings, hreads.sorted horderly.sorted, ?_, ?_⟩
  · intro id
    rw [hreads.get?_eq, hget]
    cases hvs : given tables id with
    | nil => simp [pile]
    | cons v vs =>
      obtain ⟨s, hs, -⟩ := hentry id (overlayAll v vs) (by rw [hget, hvs, pile])
      obtain ⟨s', hs'⟩ := (hgiven id v (by simp [hvs])).2
      simp [pile, hs.ofValue?_eq, hs'.ofValue?_eq]
  · intro id s hs
    rw [hreads.get?_eq] at hs
    obtain ⟨v, hv, hs⟩ := Option.bind_eq_some_iff.mp hs
    obtain ⟨s', hs', hprevails⟩ := hentry id v hv
    obtain rfl := Option.some.inj (hs'.ofValue?_eq.symm.trans hs)
    exact hprevails

theorem exists_rulesSettle {base : Value}
    (hstack : ∀ layer ∈ base :: layers, layer.isTable = true ∧ layer.Orderly)
    (hbase : base.get? "rules" = some .null) (hlayers : ∀ layer ∈ layers, SpeaksPlainly layer) :
    ∃ rules, readEntry (overlayAll base layers) "rules" none (optional readRules) = .ok rules ∧
      RulesSettle (base :: layers) rules := by
  have hgiven : given (base :: layers) "rules" = .null :: given layers "rules" := by
    simp [given, hbase]
  have hsaid : ∀ id, said (base :: layers) id =
      (given (given layers "rules") id).filterMap Setting.ofValue? := by
    intro id
    rw [said, hgiven]
    rfl
  have hplain := isPlain_of_mem_given (fun layer h => hstack layer (List.mem_cons_of_mem base h)) hlayers
  have hget := Value.get?_overlayAll hstack "rules"
  rw [hgiven] at hget
  cases hrules : given layers "rules" with
  | nil =>
    rw [hrules] at hget
    refine ⟨none, (readEntry_eq_ok_iff hget none _ none).mpr rfl, ?_, ?_, ?_, ?_⟩
    · simp [hgiven, hrules, isTable]
    · exact List.Pairwise.nil
    · intro id
      rw [hsaid, hrules]
      simp [given, Table.get?]
    · intro id s hs
      exact absurd hs (by simp [Table.get?])
  | cons r rs =>
    rw [hrules] at hget hplain
    obtain ⟨entries, settings, hpile, hread, hsorted, hunsaid, hprevails⟩ :=
      exists_readRules (List.cons_ne_nil r rs) hplain
    -- The null at the bottom is covered by the first table.
    have hcovered : pile ([.null] ++ r :: rs) = pile (r :: rs) :=
      Value.pile_append_of_not_isTable (by simp [isTable]) r rs
    replace hget := hget.trans (hcovered.trans hpile)
    refine ⟨some settings, (readEntry_eq_ok_iff hget none _ _).mpr ?_, ?_, hsorted, ?_, ?_⟩
    · rw [optional, hread]
      · rfl
      · simp
    · rw [hgiven, hrules]
      exact ⟨fun _ => ⟨r, by simp, (hplain r List.mem_cons_self).isTable⟩, fun _ => rfl⟩
    · intro id
      rw [hsaid, hrules]
      exact hunsaid id
    · intro id s hs
      rw [hsaid, hrules]
      exact hprevails id s hs

/-! ## Configurations -/

/-- What a stack of layers comes to, the lowest first. -/
structure Layered (stack : List Value) (config : Config) : Prop where
  disableInputLimit : Settles stack "disable_input_limit" readBool config.disableInputLimit
  ignore : Settles stack "ignore" (optional readPatterns) config.ignore
  logDir : Settles stack "log_dir" (optional readString) config.logDir
  maxInputBytes : Settles stack "max_input_bytes" (optional readSize) config.maxInputBytes
  /-- A level can be written as a table, too, so tables may have to be united. -/
  logLevel : ∃ v, Value.Counts (given stack "log_level") v ∧ readLevel v = .ok config.logLevel
  rules : RulesSettle stack config.rules

/-- Every setting but those of rules can be read. -/
structure Fits (stack : List Value) : Prop where
  disableInputLimit : ∃ b, Settles stack "disable_input_limit" readBool b
  ignore : ∃ patterns, Settles stack "ignore" (optional readPatterns) patterns
  logDir : ∃ dir, Settles stack "log_dir" (optional readString) dir
  maxInputBytes : ∃ size, Settles stack "max_input_bytes" (optional readSize) size
  logLevel : ∃ level v, Value.Counts (given stack "log_level") v ∧ readLevel v = .ok level

theorem ofValue_eq_ok_iff {v : Value} {config : Config} :
    ofValue v = .ok config ↔
      readEntry v "disable_input_limit" false readBool = .ok config.disableInputLimit ∧
      readEntry v "ignore" none (optional readPatterns) = .ok config.ignore ∧
      readEntry v "log_dir" none (optional readString) = .ok config.logDir ∧
      readEntry v "log_level" .info readLevel = .ok config.logLevel ∧
      readEntry v "max_input_bytes" none (optional readSize) = .ok config.maxInputBytes ∧
      readEntry v "rules" none (optional readRules) = .ok config.rules := by
  constructor
  · intro h
    obtain ⟨limit, hlimit, h⟩ := exists_of_bind_eq_ok h
    obtain ⟨ignore, hignore, h⟩ := exists_of_bind_eq_ok h
    obtain ⟨dir, hdir, h⟩ := exists_of_bind_eq_ok h
    obtain ⟨level, hlevel, h⟩ := exists_of_bind_eq_ok h
    obtain ⟨size, hsize, h⟩ := exists_of_bind_eq_ok h
    obtain ⟨rules, hrules, h⟩ := exists_of_bind_eq_ok h
    obtain rfl := Except.ok.inj h
    exact ⟨hlimit, hignore, hdir, hlevel, hsize, hrules⟩
  · rintro ⟨hlimit, hignore, hdir, hlevel, hsize, hrules⟩
    rw [ofValue, hlimit, hignore, hdir, hlevel, hsize, hrules]
    rfl

end Config

namespace ConfigSources

/-- The files of a configuration, each of which is laid over those before it. -/
def files (sources : ConfigSources) : List String :=
  sources.user.toList ++ sources.project ++ sources.explicit

theorem primary?_eq (sources : ConfigSources) : sources.primary? = sources.files.getLast? := by
  rw [primary?, files, List.getLast?_append, List.getLast?_append]
  cases sources.user <;> simp

end ConfigSources

namespace ConfigRequest

open Config

variable {layers : List Value}

theorem orderly_defaults : defaults.isTable = true ∧ defaults.Orderly := by
  refine ⟨rfl, .ofList ?_⟩
  intro e he
  simp only [List.mem_cons, List.not_mem_nil, or_false] at he
  rcases he with rfl | rfl | rfl | rfl | rfl | rfl <;> exact .other rfl

theorem not_ok_of_misfit {α : Type} {a : α} {cause : Mismatch} : Config.misfit cause ≠ .ok a := by
  simp [Config.misfit]

section Stack

variable (hlayers : ∀ layer ∈ layers, layer.isTable = true ∧ layer.Orderly)

include hlayers

theorem orderly_stack : ∀ layer ∈ defaults :: layers, layer.isTable = true ∧ layer.Orderly := by
  intro layer hlayer
  rcases List.mem_cons.mp hlayer with rfl | hlayer
  · exact orderly_defaults
  · exact hlayers layer hlayer

theorem ofValue_eq_ok_iff_layered (hplain : ∀ layer ∈ layers, SpeaksPlainly layer)
    {config : Config} :
    ofValue (overlayAll defaults layers) = .ok config ↔ Layered (defaults :: layers) config := by
  have hstack := orderly_stack hlayers
  obtain ⟨rules, hread, hrules⟩ := exists_rulesSettle hstack rfl hplain
  have hboth : readEntry (overlayAll defaults layers) "rules" none (optional readRules) =
      .ok config.rules ↔ RulesSettle (defaults :: layers) config.rules := by
    rw [hread]
    constructor
    · intro h
      obtain rfl := Except.ok.inj h
      exact hrules
    · intro h
      rw [hrules.unique h]
  rw [ofValue_eq_ok_iff, hboth, readEntry_eq_ok_iff_counts hstack rfl _ readLevel,
    readEntry_eq_ok_iff_settles hstack rfl (fun _ _ => not_ok_of_misfit),
    readEntry_eq_ok_iff_settles hstack rfl (fun _ _ => not_ok_of_misfit),
    readEntry_eq_ok_iff_settles hstack rfl (fun _ _ => not_ok_of_misfit),
    readEntry_eq_ok_iff_settles hstack rfl (fun _ _ => not_ok_of_misfit)]
  constructor
  · rintro ⟨hlimit, hignore, hdir, hlevel, hsize, hrules⟩
    exact ⟨hlimit, hignore, hdir, hsize, hlevel, hrules⟩
  · rintro ⟨hlimit, hignore, hdir, hsize, hlevel, hrules⟩
    exact ⟨hlimit, hignore, hdir, hlevel, hsize, hrules⟩

end Stack

/-! ## Loading -/

variable {request : ConfigRequest} {tree : FileTree} {files : List Value} {top : Value}

theorem reader_cases (path : String) :
    reader path = Yaml.parse? ∨ reader path = Json.parse? ∨ reader path = Toml.parse? := by
  unfold reader
  split <;> simp

theorem orderly_reader {path : String} {text : Text} {v : Value} (h : reader path text = some v) :
    v.Orderly := by
  rcases reader_cases path with hreader | hreader | hreader
  · exact Yaml.orderly_parse? (hreader ▸ h)
  · exact Json.orderly_parse? (hreader ▸ h)
  · exact Toml.orderly_parse? (hreader ▸ h)

theorem isTable_orderly_of_readFile {cwd : Path} {path : String} {v : Value}
    (h : readFile tree cwd path = .ok v) : v.isTable = true ∧ v.Orderly := by
  rw [readFile] at h
  split at h
  · exact absurd h (by simp)
  · split at h
    · rename_i entries hentries
      obtain rfl := Except.ok.inj h
      exact ⟨rfl, orderly_reader hentries⟩
    · exact absurd h (by simp)

theorem isTable_orderly_of_environmentLayer (h : request.environmentLayer = .ok top) :
    top.isTable = true ∧ top.Orderly := by
  rw [environmentLayer] at h
  cases htop : Environment.toValue request.environment with
  | error e =>
    rw [htop] at h
    exact absurd h (by simp [Except.mapError])
  | ok v =>
    rw [htop] at h
    obtain rfl := Except.ok.inj h
    exact Environment.isTable_orderly_toValue htop

theorem layers_eq_ok_iff {all : List Value} :
    request.layers tree (request.sources tree) = .ok all ↔
      ∃ files top, all = files ++ [top] ∧ request.environmentLayer = .ok top ∧
        List.Forall₂ (fun path layer => readFile tree request.cwd path = .ok layer)
          (request.sources tree).files files := by
  constructor
  · intro h
    obtain ⟨top, htop, h⟩ := exists_of_bind_eq_ok h
    obtain ⟨files, hfiles, h⟩ := exists_of_bind_eq_ok h
    obtain rfl := Except.ok.inj h
    exact ⟨files, top, rfl, htop, mapM_eq_ok_iff.mp hfiles⟩
  · rintro ⟨files, top, rfl, htop, hfiles⟩
    rw [layers, htop]
    show ((request.sources tree).files.mapM (readFile tree request.cwd) >>=
      fun values => pure (values ++ [top])) = _
    rw [mapM_eq_ok_iff.mpr hfiles]
    rfl

theorem load_eq {all : List Value} (h : request.layers tree (request.sources tree) = .ok all) :
    request.load tree = (ofValue (overlayAll defaults all)).map (·, request.sources tree) := by
  rw [load, h]
  show (ofValue (overlayAll defaults all) >>= fun config => pure (config, request.sources tree)) = _
  cases ofValue (overlayAll defaults all) <;> rfl

/-- **What is loaded is what the layers come to.** -/
theorem load_layered
    (hfiles : List.Forall₂ (fun path layer => readFile tree request.cwd path = .ok layer)
      (request.sources tree).files files)
    (htop : request.environmentLayer = .ok top)
    (hplain : ∀ layer ∈ files ++ [top], SpeaksPlainly layer) :
    (request.sources tree).primary? = (request.sources tree).files.getLast? ∧
      ((∃ answer, request.load tree = .ok answer) ↔ Fits (defaults :: (files ++ [top]))) ∧
      ∀ config sources, request.load tree = .ok (config, sources) ↔
        sources = request.sources tree ∧ Layered (defaults :: (files ++ [top])) config := by
  have hlayers : ∀ layer ∈ files ++ [top], layer.isTable = true ∧ layer.Orderly := by
    intro layer hlayer
    rcases List.mem_append.mp hlayer with hlayer | hlayer
    · obtain ⟨path, -, hread⟩ := exists_of_mem_mapM (mapM_eq_ok_iff.mpr hfiles) hlayer
      exact isTable_orderly_of_readFile hread
    · obtain rfl := List.mem_singleton.mp hlayer
      exact isTable_orderly_of_environmentLayer htop
  have hconfig : ∀ config sources, request.load tree = .ok (config, sources) ↔
      sources = request.sources tree ∧ Layered (defaults :: (files ++ [top])) config := by
    intro config sources
    have hall := layers_eq_ok_iff.mpr ⟨files, top, rfl, htop, hfiles⟩
    rw [load_eq hall, ← ofValue_eq_ok_iff_layered hlayers hplain]
    cases ofValue (overlayAll defaults (files ++ [top])) with
    | error e => simp [Except.map]
    | ok found => simp [Except.map, and_comm, eq_comm]
  refine ⟨ConfigSources.primary?_eq _, ?_, hconfig⟩
  constructor
  · rintro ⟨⟨config, sources⟩, h⟩
    obtain ⟨-, hlayered⟩ := (hconfig config sources).mp h
    exact ⟨⟨_, hlayered.disableInputLimit⟩, ⟨_, hlayered.ignore⟩, ⟨_, hlayered.logDir⟩,
      ⟨_, hlayered.maxInputBytes⟩, ⟨_, hlayered.logLevel⟩⟩
  · rintro ⟨⟨limit, hlimit⟩, ⟨ignore, hignore⟩, ⟨dir, hdir⟩, ⟨size, hsize⟩, ⟨level, hlevel⟩⟩
    -- The settings of rules can always be read, so they do not stand in the way.
    obtain ⟨rules, -, hrules⟩ := exists_rulesSettle (orderly_stack hlayers) rfl hplain
    let config : Config := ⟨level, dir, size, limit, ignore, rules⟩
    exact ⟨(config, request.sources tree), (hconfig config _).mpr
      ⟨rfl, hlimit, hignore, hdir, hsize, hlevel, hrules⟩⟩

theorem exists_layers
    (h : (request.layers tree (request.sources tree)).toOption.map (·.all speaksPlainly) =
      some true) :
    ∃ files top, List.Forall₂ (fun path layer => readFile tree request.cwd path = .ok layer)
        (request.sources tree).files files ∧ request.environmentLayer = .ok top ∧
      ∀ layer ∈ files ++ [top], SpeaksPlainly layer := by
  obtain ⟨all, hall, hplain⟩ := exists_ok_of_toOption h
  obtain ⟨files, top, rfl, htop, hfiles⟩ := layers_eq_ok_iff.mp hall
  refine ⟨files, top, hfiles, htop, ?_⟩
  intro layer hlayer
  exact speaksPlainly_sound (List.all_eq_true.mp hplain layer hlayer)

/-- A rule that is given an option, switched off, and given other options by a file and by the
environment. -/
def quarrel : ConfigRequest where
  cwd := []
  explicit := ["a.toml", "b.toml", "c.toml"]
  environment := [("YMLINT_RULES.EMPTY-LINES.MAX", "1")]

/-- The files of `quarrel`. -/
def quarrelTree : FileTree where
  entries := [
    (["a.toml"], .file "ignore=['x']\nrules.empty-lines.max-end=7".toUTF8),
    (["b.toml"], .file "ignore=['y']\nrules.empty-lines='disable'".toUTF8),
    (["c.toml"], .file "rules.empty-lines=\x7bmax=3,max-start=5\x7d".toUTF8)]

theorem load_layered_quarrel :
    ∃ files top, List.Forall₂ (fun path layer => readFile quarrelTree [] path = .ok layer)
        (quarrel.sources quarrelTree).files files ∧ quarrel.environmentLayer = .ok top ∧
      (∀ layer ∈ files ++ [top], SpeaksPlainly layer) ∧
      ∃ config, quarrel.load quarrelTree = .ok (config, quarrel.sources quarrelTree) ∧
        Layered (defaults :: (files ++ [top])) config ∧ config.ignore = some ["y"] ∧
        config.settings = [("empty-lines", .options [("max", .int 1), ("max-start", .int 5)])] ∧
        (quarrel.sources quarrelTree).primary? = some "c.toml" := by
  have hplain : (quarrel.layers quarrelTree (quarrel.sources quarrelTree)).toOption.map
      (·.all speaksPlainly) = some true := by decide +kernel
  have hload : (quarrel.load quarrelTree).toOption.map
      (fun (config, _) => (config.ignore, config.settings)) =
      some (some ["y"], [("empty-lines", .options [("max", .int 1), ("max-start", .int 5)])]) := by
    decide +kernel
  obtain ⟨files, top, hfiles, htop, hlayers⟩ := exists_layers hplain
  obtain ⟨⟨config, sources⟩, hconfig, hseen⟩ := exists_ok_of_toOption hload
  obtain ⟨hignore, hsettings⟩ := Prod.mk.inj hseen
  obtain ⟨hprimary, -, hiff⟩ := load_layered hfiles htop hlayers
  obtain ⟨rfl, hlayered⟩ := (hiff config sources).mp hconfig
  exact ⟨files, top, hfiles, htop, hlayers, config, hconfig, hlayered, hignore, hsettings,
    hprimary.trans (by decide)⟩

/-- Two files that write the level as a table. -/
def clash : ConfigRequest where
  cwd := []
  explicit := ["a.yaml", "b.yaml"]

/-- The files of `clash`. -/
def clashTree : FileTree where
  entries := [
    (["a.yaml"], .file "log_level:\n  debug:\n".toUTF8),
    (["b.yaml"], .file "log_level:\n  info:\n".toUTF8)]

/-- The last file says `info`, and what comes first in the table of both is `debug`. -/
theorem load_clash :
    ∃ all config sources, clash.layers clashTree (clash.sources clashTree) = .ok all ∧
      (∀ layer ∈ all, SpeaksPlainly layer) ∧ clash.load clashTree = .ok (config, sources) ∧
      Settles (defaults :: all) "log_level" readLevel .info ∧ config.logLevel = .debug ∧
      ¬Settles (defaults :: all) "log_level" readLevel config.logLevel := by
  have hlast : (clash.layers clashTree (clash.sources clashTree)).toOption.map
      (fun all => (all.all speaksPlainly,
        (given (defaults :: all) "log_level").getLast?.map (readLevel · |>.toOption))) =
      some (true, some (some .info)) := by decide +kernel
  have hload : (clash.load clashTree).toOption.map (·.1.logLevel) = some .debug := by
    decide +kernel
  obtain ⟨all, hall, hseen⟩ := exists_ok_of_toOption hlast
  obtain ⟨⟨config, sources⟩, hconfig, hlevel⟩ := exists_ok_of_toOption hload
  obtain ⟨hplain, hinfo⟩ := Prod.mk.inj hseen
  obtain ⟨v, hv, hinfo⟩ := Option.map_eq_some_iff.mp hinfo
  have hread : readLevel v = .ok .info := by
    cases hread : readLevel v with
    | error e =>
      rw [hread] at hinfo
      exact absurd hinfo (by simp [Except.toOption])
    | ok level =>
      rw [hread] at hinfo
      rw [Option.some.inj hinfo]
  refine ⟨all, config, sources, hall, ?_, hconfig, ⟨v, hv, hread⟩, hlevel, ?_⟩
  · intro layer hlayer
    exact speaksPlainly_sound (List.all_eq_true.mp hplain layer hlayer)
  · rintro ⟨w, hw, hreadw⟩
    obtain rfl := Option.some.inj (hv.symm.trans hw)
    rw [hread] at hreadw
    rw [← Except.ok.inj hreadw] at hlevel
    exact absurd hlevel (by decide)

end ConfigRequest

end YamlStyle
