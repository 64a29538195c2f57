import YamlStyle.Proofs.Rule.Prevail
import YamlStyle.Proofs.Rule.Resolution

/-!
# Settings that are written and read again

A value does not say what it is a setting of: a toggle is a word, and a table may be a table of options
or another way to write a toggle. What a value means is found out by trying. There is an order of
**variants**, and the first that can read the value counts (`Value.firstReading`): of a setting first a
toggle and then a table of options, of an option first a boolean, then an integer, then a string.

So a setting could be lost in writing it, if what is written were read as an earlier variant. It never is
(`ofValue_toValue`). A table is a toggle only if its one entry has no value, and a written option always
has one.
-/

set_option autoImplicit false

namespace YamlStyle

/-- The first reading of a value that succeeds. -/
def Value.firstReading {α : Type} : List (Value → Option α) → Value → Option α
  | [], _ => none
  | read :: others, v => (read v).or (firstReading others v)

/-! ## Options -/

namespace OptionValue

/-- Read a boolean. -/
def ofBool? : Value → Option OptionValue
  | .bool b => some (.bool b)
  | _ => none

/-- Read an integer of 64 bits. -/
def ofInt? : Value → Option OptionValue
  | .int n => if Value.minInt ≤ n ∧ n ≤ Value.maxInt then some (.int n) else none
  | _ => none

/-- Read a string. -/
def ofStr? : Value → Option OptionValue
  | .str s => some (.str s)
  | _ => none

theorem ofValue?_eq_firstReading (v : Value) :
    ofValue? v = Value.firstReading [ofBool?, ofInt?, ofStr?] v := by
  cases v with
  | int n =>
    simp only [Value.firstReading, ofValue?, ofBool?, ofInt?, ofStr?, Option.or_none, Option.none_or]
  | null | bool | float | char | str | list | table => rfl

/-- An integer has 64 bits. -/
def Fits : OptionValue → Prop
  | .int n => Value.minInt ≤ n ∧ n ≤ Value.maxInt
  | _ => True

instance : (value : OptionValue) → Decidable value.Fits
  | .int _ => inferInstanceAs (Decidable (_ ∧ _))
  | .bool _ | .str _ => isTrue trivial

theorem ofValue?_toValue {value : OptionValue} (h : value.Fits) : ofValue? value.toValue = some value := by
  cases value with
  | int n => exact if_pos h
  | bool | str => rfl

end OptionValue

/-! ## Settings of a rule -/

namespace Setting

variable {values : Table OptionValue} {setting : Setting}

/-- Read a toggle: its word, or a table in which the word has no value. -/
def ofToggle? (v : Value) : Option Setting :=
  (Value.word [("enable", true), ("disable", false)] v).toOption.map .toggle

/-- Read a table of options. -/
def ofOptions? : Value → Option Setting
  | .table entries => (optionTable? entries).map .options
  | _ => none

theorem ofToggle?_str (s : String) : ofToggle? (.str s) = ofWord? s := by
  unfold ofToggle? ofWord?
  by_cases henable : s = "enable"
  · subst henable
    rfl
  · by_cases hdisable : s = "disable"
    · subst hdisable
      rfl
    · have hlookup : [("enable", true), ("disable", false)].lookup s = none := by
        rw [List.lookup_eq_none_iff]
        simp [henable, hdisable]
      simp [Value.word, Value.word.pick, hlookup, henable, hdisable, Except.toOption]

/-- In a table, the word has to stand alone and without a value. -/
theorem ofToggle?_entry (name : String) (v : Value) :
    ofToggle? (.table [(name, v)]) = if v matches .null then ofToggle? (.str name) else none := by
  unfold ofToggle?
  simp only [Value.word]
  cases Value.word.pick [("enable", true), ("disable", false)] name with
  | error e => cases v <;> rfl
  | ok on => cases v <;> rfl

theorem ofValue?_eq_firstReading (v : Value) :
    ofValue? v = Value.firstReading [ofToggle?, ofOptions?] v := by
  simp only [Value.firstReading, Option.or_none]
  cases v with
  | str s => simp [ofValue?, ofOptions?, ofToggle?_str]
  | table entries =>
    rcases entries with - | ⟨⟨name, v⟩, - | ⟨second, rest⟩⟩
    · rfl
    · rw [ofToggle?_entry, ofToggle?_str]
      cases v with
      | null => simp [ofValue?, ofOptions?, optionTable?, OptionValue.ofValue?]
      | bool | int | float | char | str | list | table => rfl
    · simp [ofValue?, ofToggle?, ofOptions?, Value.word, Except.toOption]
  | null | bool | int | float | char | list => rfl

/-- A table of options is written value by value, and none of its values is missing. -/
theorem optionTable?_toValue (h : ∀ entry ∈ values, entry.2.Fits) :
    optionTable? (values.map fun (name, v) => (name, v.toValue)) = some values := by
  induction values with
  | nil => rfl
  | cons entry values ih =>
    have hfirst := OptionValue.ofValue?_toValue (h entry List.mem_cons_self)
    have hrest := ih fun other hother => h other (List.mem_cons_of_mem _ hother)
    rw [List.map_cons, optionTable?, hfirst, hrest]
    rfl

theorem written_toValue (h : ∀ entry ∈ setting.given, entry.2.Fits) :
    Written setting.toValue setting := by
  cases setting with
  | toggle on =>
    cases on with
    | true => exact .enable
    | false => exact .disable
  | options values => exact .options (optionTable?_toValue h)

end Setting

/-! ## Settings -/

namespace Settings

variable {settings : Settings}

/-- The integers among the options have 64 bits. -/
def Fits (settings : Settings) : Prop := ∀ entry ∈ settings, ∀ option ∈ entry.2.given, option.2.Fits

instance (settings : Settings) : Decidable settings.Fits :=
  inferInstanceAs (Decidable (∀ entry ∈ settings, ∀ option ∈ entry.2.given, option.2.Fits))

/-- Settings on their own and settings in a configuration have readers of their own. -/
theorem readers_toValue (h : settings.Fits) :
    ofEntries (settings.map fun (id, s) => (id, s.toValue)) = .ok settings ∧
      Config.readSettings (settings.map fun (id, s) => (id, s.toValue)) = .ok settings := by
  induction settings with
  | nil => exact ⟨rfl, rfl⟩
  | cons entry settings ih =>
    obtain ⟨hentries, hsettings⟩ := ih fun other hother => h other (List.mem_cons_of_mem _ hother)
    have hwritten := Setting.written_toValue (h entry List.mem_cons_self)
    rw [List.map_cons, ofEntries, Config.readSettings, hwritten.wideInteger?_eq,
      hwritten.ofValue?_eq, hentries, hsettings]
    exact ⟨rfl, rfl⟩

/-- **Settings survive being written**: read by variants, what is written is what it was. -/
theorem ofValue_toValue (h : settings.Fits) :
    ofValue settings.toValue = .ok settings ∧ Config.readRules settings.toValue = .ok settings ∧
      (∀ v, Setting.ofValue? v = Value.firstReading [Setting.ofToggle?, Setting.ofOptions?] v) ∧
      ∀ v, OptionValue.ofValue? v =
        Value.firstReading [OptionValue.ofBool?, OptionValue.ofInt?, OptionValue.ofStr?] v := by
  obtain ⟨hentries, hsettings⟩ := readers_toValue h
  refine ⟨?_, hsettings, Setting.ofValue?_eq_firstReading, OptionValue.ofValue?_eq_firstReading⟩
  rw [toValue, ofValue, hentries]
  rfl

/-- Options that are named like toggles, and toggles. -/
def mistakable : Settings :=
  [("a", .options [("enable", .bool true)]), ("b", .options [("disable", .str "disable")]),
    ("c", .toggle true), ("d", .toggle false), ("e", .options []),
    ("f", .options [("max", .int (-9223372036854775808)), ("min", .str "0")])]

theorem ofValue_toValue_mistakable :
    mistakable.Fits ∧ ofValue mistakable.toValue = .ok mistakable ∧
      Config.readRules mistakable.toValue = .ok mistakable := by
  have hfits : mistakable.Fits := by decide
  exact ⟨hfits, (ofValue_toValue hfits).1, (ofValue_toValue hfits).2.1⟩

end Settings

end YamlStyle
