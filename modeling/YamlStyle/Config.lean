import YamlStyle.Ignore
import YamlStyle.Lint
import YamlStyle.Rule.Setting
import YamlStyle.Value.Mismatch

/-!
# Configuration

What can be configured, and how a configuration is read from a value. A reading fails with the place
of the first value that does not fit, in the order of the names.
-/

set_option autoImplicit false

namespace YamlStyle

/-- How much is logged. -/
inductive LogLevel where
  | debug
  | info
  | warn
  | error
  deriving DecidableEq, Repr, Inhabited

namespace LogLevel

/-- The written form of a level. -/
def name : LogLevel → String
  | .debug => "debug"
  | .info => "info"
  | .warn => "warn"
  | .error => "error"

/-- The levels by name. -/
def words : List (String × LogLevel) :=
  [("debug", .debug), ("info", .info), ("warn", .warn), ("error", .error)]

end LogLevel

/-- A configuration. -/
structure Config where
  logLevel : LogLevel := .info
  /-- Directory of the log files. -/
  logDir : Option String := none
  /-- Greatest number of bytes of a document. -/
  maxInputBytes : Option Nat := none
  /-- Whether documents of any size are read. -/
  disableInputLimit : Bool := false
  /-- Patterns of the paths to pass over. -/
  ignore : Option (List String) := none
  rules : Option Settings := none
  deriving DecidableEq, Repr

/-- Why there is no configuration. -/
inductive LoadError where
  /-- There is nothing to read a configuration from. -/
  | nothingFound
  /-- A file is missing, is not well formed, or holds no table. -/
  | unreadable (file : String)
  /-- The value at a path of names does not fit. -/
  | mismatch (path : List String) (cause : Mismatch)
  /-- Nothing can be made of an environment variable. There is no way to go on from here. -/
  | brokenVariable (name : String)
  deriving Repr

/-- The wording of an error. -/
def LoadError.message : LoadError → String
  | .nothingFound => "no configuration file found"
  | .unreadable file => s!"cannot read a configuration from {file}"
  | .mismatch path cause => cause.message ++ " for " ++ ".".intercalate path
  | .brokenVariable name => s!"cannot cut the value of {name} inside a character"

namespace Config

/-- The greatest number of bytes of a document if nothing else is said: 5 MiB. -/
def defaultLimit : Nat := 5 * 1024 * 1024

/-- The greatest number of bytes of a document, if there is a limit. -/
def inputLimit? (config : Config) : Option Nat :=
  if config.disableInputLimit then none else some (config.maxInputBytes.getD defaultLimit)

/-- The settings of the rules. -/
def settings (config : Config) : Settings := config.rules.getD []

/-- The linter of a configuration. -/
def linter (config : Config) : Except SettingsError Linter := Linter.ofSettings config.settings

/-- The ignore list of a configuration. -/
def ignoreList (config : Config) : Except IgnoreError IgnoreList :=
  IgnoreList.ofPatterns (config.ignore.getD [])

/-! ## Reading -/

/-- A value that does not fit, right here. -/
def misfit {α : Type} (cause : Mismatch) : Except (List String × Mismatch) α := .error ([], cause)

/-- A reading of an optional value: null is no value. -/
def optional {α : Type} (read : Value → Except (List String × Mismatch) α) :
    Value → Except (List String × Mismatch) (Option α)
  | .null => .ok none
  | v => (read v).map some

/-- Read a string. A single character is one, too. -/
def readString : Value → Except (List String × Mismatch) String
  | .str s => .ok s
  | .char c => .ok (String.singleton c)
  | v => misfit (.type v "a string")

/-- Read a boolean. -/
def readBool : Value → Except (List String × Mismatch) Bool
  | .bool b => .ok b
  | v => misfit (.type v "a boolean")

/-- Read a number of bytes. -/
def readSize : Value → Except (List String × Mismatch) Nat
  | .int n =>
    if !Value.fitsWord n then misfit (.type (.int n) "usize")
    else if 0 ≤ n then .ok n.toNat
    else misfit (.range (.int n) "usize")
  | v => misfit (.type v "usize")

/-- Read a list of strings, of which the first has the given number. -/
def readStrings (index : Nat) : List Value → Except (List String × Mismatch) (List String)
  | [] => .ok []
  | v :: rest =>
    match readString v with
    | .error (path, cause) => .error (toString index :: path, cause)
    | .ok s => (readStrings (index + 1) rest).map (s :: ·)

/-- Read a list of patterns. -/
def readPatterns : Value → Except (List String × Mismatch) (List String)
  | .list vs => readStrings 0 vs
  | v => misfit (.type v "a sequence")

/-- Look up the name of a level. -/
def pickLevel (s : String) : Except (List String × Mismatch) LogLevel :=
  match LogLevel.words.lookup s with
  | some level => .ok level
  | none => misfit (.word s (LogLevel.words.map (·.1)))

/-- Read a level: its name, or a table in which the name comes first and has no value. -/
def readLevel : Value → Except (List String × Mismatch) LogLevel
  | .str s => pickLevel s
  | .table ((s, v) :: _) =>
    match pickLevel s, v with
    | .error (_, cause), _ => .error ([s], cause)
    | .ok level, .null => .ok level
    | .ok _, v => .error ([s], .type v "unit")
  | v => misfit (.type v "enum LogLevel")

mutual

/-- The first integer in a value that has more than 64 bits, and the way to it. -/
def wideInteger? : Value → Option (List String × Int)
  | .int n => if Value.fitsWord n then none else some ([], n)
  | .list items => wideItem? 0 items
  | .table entries => wideEntry? entries
  | _ => none

/-- The same for the items of a list, of which the first has the given number. -/
def wideItem? (index : Nat) : List Value → Option (List String × Int)
  | [] => none
  | v :: rest =>
    match wideInteger? v with
    | some (path, n) => some (toString index :: path, n)
    | none => wideItem? (index + 1) rest

/-- The same for the entries of a table. -/
def wideEntry? : List (String × Value) → Option (List String × Int)
  | [] => none
  | (name, v) :: rest =>
    match wideInteger? v with
    | some (path, n) => some (name :: path, n)
    | none => wideEntry? rest

end

/-- Read settings of rules, one after the other. An integer of more than 64 bits fits nowhere, and is
reported where it stands. -/
def readSettings : List (String × Value) → Except (List String × Mismatch) Settings
  | [] => .ok []
  | (id, v) :: rest =>
    match wideInteger? v, Setting.ofValue? v with
    | some (path, n), _ => .error (id :: path, .type (.int n) "any value")
    | none, none => .error ([id], Settings.noMatch)
    | none, some s => (readSettings rest).map ((id, s) :: ·)

/-- Read settings of rules. -/
def readRules : Value → Except (List String × Mismatch) Settings
  | .table entries => readSettings entries
  | v => misfit (.type v "a map")

/-- Read the entry of a table, with what holds if there is none. -/
def readEntry {α : Type} (v : Value) (name : String) (absent : α)
    (read : Value → Except (List String × Mismatch) α) : Except LoadError α :=
  match v.get? name with
  | none => .ok absent
  | some w => (read w).mapError fun (path, cause) => .mismatch (name :: path) cause

/-- Read a configuration. Entries with other names are passed over. -/
def ofValue (v : Value) : Except LoadError Config := do
  let disableInputLimit ← readEntry v "disable_input_limit" false readBool
  let ignore ← readEntry v "ignore" none (optional readPatterns)
  let logDir ← readEntry v "log_dir" none (optional readString)
  let logLevel ← readEntry v "log_level" .info readLevel
  let maxInputBytes ← readEntry v "max_input_bytes" none (optional readSize)
  let rules ← readEntry v "rules" none (optional readRules)
  pure { logLevel, logDir, maxInputBytes, disableInputLimit, ignore, rules }

/-- Write a string that may be missing. -/
def optionalString : Option String → Value
  | some s => .str s
  | none => .null

/-- Write a configuration. -/
def toValue (config : Config) : Value :=
  .table (Table.ofList [
    ("log_level", .str config.logLevel.name),
    ("log_dir", optionalString config.logDir),
    ("max_input_bytes", (config.maxInputBytes.map fun n => Value.int n).getD .null),
    ("disable_input_limit", .bool config.disableInputLimit),
    ("ignore", (config.ignore.map fun ps => Value.list (ps.map .str)).getD .null),
    ("rules", (config.rules.map Settings.toValue).getD .null)])

end Config

end YamlStyle
