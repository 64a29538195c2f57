import YamlStyle.Problem
import YamlStyle.Text

/-!
# Arguments of the command line

The command line is one command with options of its own, or one of three subcommands with theirs.
Some options are known everywhere; given to both the command and the subcommand, the subcommand has
the last word.

Arguments are read from left to right, and the first fault is the one that is reported. An option
whose value is an argument of its own is not looked at more closely until something else is read: up
to then the value is **pending**. A subcommand reads its arguments to the end before its parent gets
back to a pending value.
-/

set_option autoImplicit false

namespace YamlStyle

namespace Cli

/-- The parts of the command line that have options. -/
inductive Scope where
  | top
  | lint
  | rules
  | info
  deriving DecidableEq, Repr

/-- The options without a value. -/
inductive Flag where
  | help
  | version
  | versionOnly
  | quiet
  | verbose
  | json
  | strict
  | enabled
  deriving DecidableEq, Repr

/-- The options with a value. -/
inductive Opt where
  | config
  | chdir
  | color
  | minLevel
  deriving DecidableEq, Repr

namespace Flag

/-- The long name. -/
def long : Flag → String
  | .help => "help"
  | .version => "version"
  | .versionOnly => "version-only"
  | .quiet => "quiet"
  | .verbose => "verbose"
  | .json => "json"
  | .strict => "strict"
  | .enabled => "enabled"

/-- The letter for it, if there is one. -/
def short? : Flag → Option Char
  | .help => some 'h'
  | .version => some 'V'
  | .quiet => some 'q'
  | .verbose => some 'v'
  | _ => none

/-- How the flag is named in a message. -/
def shown (f : Flag) : String := "--" ++ f.long

/-- Whether the flag may be given more than once. -/
def isRepeatable (f : Flag) : Bool := f == .verbose

end Flag

namespace Opt

/-- The long name. -/
def long : Opt → String
  | .config => "config"
  | .chdir => "chdir"
  | .color => "color"
  | .minLevel => "min-level"

/-- The letter for it, if there is one. -/
def short? : Opt → Option Char
  | .config => some 'c'
  | .chdir => some 'C'
  | _ => none

/-- How the option is named in a message. -/
def shown : Opt → String
  | .config => "--config <FILE>"
  | .chdir => "--chdir <CHDIR>"
  | .color => "--color <COLOR>"
  | .minLevel => "--min-level <LEVEL>"

/-- The values the option takes, if not all. -/
def allowed? : Opt → Option (List String)
  | .color => some ["auto", "always", "never"]
  | .minLevel => some ["warning", "error"]
  | _ => none

end Opt

namespace Scope

/-- The flags that are known in a part of the command line. -/
def flags : Scope → List Flag
  | .top => [.help, .version, .versionOnly, .quiet, .verbose, .json]
  | .lint => [.help, .quiet, .verbose, .json, .strict]
  | .rules => [.help, .quiet, .verbose, .json, .enabled]
  | .info => [.help, .quiet, .verbose, .json]

/-- The options with a value that are known in a part of the command line. -/
def opts : Scope → List Opt
  | .lint => [.config, .chdir, .color, .minLevel]
  | _ => [.config, .chdir, .color]

/-- The subcommand of a name. -/
def ofName? (name : String) : Option Scope :=
  if name = "lint" then some .lint
  else if name = "rules" then some .rules
  else if name = "info" then some .info
  else none

end Scope

/-- What is wrong with a command line. -/
inductive UsageError where
  | unexpected (argument : String)
  | unknownSubcommand (name : String)
  | repeated (option : String)
  | valueMissing (option : String)
  | valueInvalid (value option : String)
  | valueUnwanted (value option : String)
  | filesMissing
  deriving DecidableEq, Repr

/-- The wording of an error. -/
def UsageError.message : UsageError → String
  | .unexpected a => s!"unexpected argument '{a}' found"
  | .unknownSubcommand name => s!"unrecognized subcommand '{name}'"
  | .repeated option => s!"the argument '{option}' cannot be used multiple times"
  | .valueMissing option => s!"a value is required for '{option}' but none was supplied"
  | .valueInvalid value option => s!"invalid value '{value}' for '{option}'"
  | .valueUnwanted value option =>
    s!"unexpected value '{value}' for '{option}' found; no more were expected"
  | .filesMissing => "the following required arguments were not provided:"

/-- Why a command line is not read to its end. -/
inductive Halt where
  | usage (error : UsageError)
  /-- Help was asked for. -/
  | help
  /-- The version was asked for. -/
  | version
  deriving DecidableEq, Repr

/-- What has been read in one part of the command line. -/
structure Given where
  flags : List Flag := []
  values : List (Opt × String) := []
  files : List String := []
  /-- The option that was read last, with its value if that has been read, too. -/
  pending : Option (Opt × Option String) := none
  /-- Whether the mark has been read behind which there are no options. -/
  trailing : Bool := false
  deriving DecidableEq, Repr

namespace Given

/-- Take in the value of an option. -/
def store (given : Given) (opt : Opt) (value : String) : Except Halt Given :=
  if given.values.any (·.1 == opt) then .error (.usage (.repeated opt.shown))
  else if value = "" then .error (.usage (.valueMissing opt.shown))
  else
    match opt.allowed? with
    | some allowed =>
      if allowed.contains value then .ok { given with values := given.values ++ [(opt, value)] }
      else .error (.usage (.valueInvalid value opt.shown))
    | none => .ok { given with values := given.values ++ [(opt, value)] }

/-- Settle what is pending. -/
def settle (given : Given) : Except Halt Given :=
  match given.pending with
  | none => .ok given
  | some (opt, none) => .error (.usage (.valueMissing opt.shown))
  | some (opt, some value) => store { given with pending := none } opt value

/-- Take in a flag. -/
def addFlag (given : Given) (flag : Flag) : Except Halt Given := do
  let given ← given.settle
  match flag with
  | .help => throw .help
  | .version => throw .version
  | flag =>
    if given.flags.contains flag && !flag.isRepeatable then
      throw (.usage (.repeated flag.shown))
    else pure { given with flags := given.flags ++ [flag] }

/-- Take in an option, with its value if that is attached to it. -/
def addOpt (given : Given) (opt : Opt) (value : Option String) : Except Halt Given := do
  let given ← given.settle
  match value with
  | some value => given.store opt value
  | none => pure { given with pending := some (opt, none) }

/-- Whether the next argument is the value of an option. -/
def awaitsValue (given : Given) : Bool :=
  match given.pending with
  | some (_, none) => true
  | _ => false

/-- The value of an option. -/
def value? (given : Given) (opt : Opt) : Option String := given.values.lookup opt

end Given

/-- Take in an argument with two dashes. `name` is what follows them, up to an equals sign, and
`value` what follows that. -/
def readLong (scope : Scope) (given : Given) (name : String) (value : Option String) :
    Except Halt Given :=
  match scope.opts.find? (·.long == name) with
  | some opt => given.addOpt opt value
  | none =>
    match scope.flags.find? (·.long == name) with
    | none => .error (.usage (.unexpected ("--" ++ name)))
    | some flag =>
      match value with
      | some value => .error (.usage (.valueUnwanted value flag.shown))
      | none => given.addFlag flag

/-- The value that is attached to the letter of an option. -/
def attached? : Text → Option String
  | [] => none
  | '=' :: value => some (String.ofList value)
  | value => some (String.ofList value)

/-- Take in the letters behind a single dash. -/
def readShort (scope : Scope) (given : Given) : Text → Except Halt Given
  | [] => .ok given
  | c :: rest =>
    match scope.opts.find? (·.short? == some c) with
    | some opt => given.addOpt opt (attached? rest)
    | none =>
      match scope.flags.find? (·.short? == some c) with
      | none => .error (.usage (.unexpected (String.ofList ['-', c])))
      | some flag =>
        match given.addFlag flag with
        | .ok given => readShort scope given rest
        | .error e => .error e

/-- Divide a text at its first equals sign. -/
def splitEquals (text : Text) : String × Option String :=
  match text.dropWhile (· != '=') with
  | '=' :: value => (String.ofList (text.takeWhile (· != '=')), some (String.ofList value))
  | _ => (String.ofList text, none)

/-- The subcommand that is about the others. -/
def helpName : String := "help"

/-- Whether there is a subcommand of a name. -/
def isSubcommand (name : String) : Bool := (Scope.ofName? name).isSome || name == helpName

/-- Take in an argument that is no option. -/
def readPlain (scope : Scope) (given : Given) (argument : String) : Except Halt Given :=
  match given.pending, given.trailing with
  | some (opt, none), false => .ok { given with pending := some (opt, some argument) }
  | _, _ =>
    match scope with
    | .lint => given.settle.map fun given => { given with files := given.files ++ [argument] }
    | .top =>
      if given.trailing && isSubcommand argument then
        .error (.usage (.unexpected argument))
      else .error (.usage (.unknownSubcommand argument))
    | _ => .error (.usage (.unexpected argument))

/-- Take in an argument. -/
def readArgument (scope : Scope) (given : Given) (argument : String) : Except Halt Given :=
  if given.trailing then readPlain scope given argument
  else
    match argument.toList with
    | ['-', '-'] => .ok { given with trailing := true }
    | '-' :: '-' :: text =>
      let (name, value) := splitEquals text
      readLong scope given name value
    | '-' :: c :: rest => readShort scope given (c :: rest)
    | _ => readPlain scope given argument

/-- Take in the arguments of a subcommand. -/
def readAll (scope : Scope) (given : Given) : List String → Except Halt Given
  | [] => given.settle
  | argument :: rest =>
    match readArgument scope given argument with
    | .ok given => readAll scope given rest
    | .error e => .error e

/-- What a subcommand was asked to do. -/
inductive Command where
  | lint (files : List String) (minLevel : Option Level) (strict : Bool)
  | rules (enabledOnly : Bool)
  | info
  deriving DecidableEq, Repr

/-- A command line that makes sense. -/
structure Invocation where
  command : Option Command
  versionOnly : Bool
  config : Option String
  chdir : Option String
  json : Bool
  deriving DecidableEq, Repr

/-- The subcommand that was read. -/
def commandOf (given : Given) : Scope → Except Halt (Option Command)
  | .top => .ok none
  | .lint =>
    if given.files.isEmpty then .error (.usage .filesMissing)
    else
      .ok (some (.lint given.files ((given.value? .minLevel).bind Level.ofName?)
        (given.flags.contains .strict)))
  | .rules => .ok (some (.rules (given.flags.contains .enabled)))
  | .info => .ok (some .info)

/-- Put together what the command and its subcommand were given. -/
def combine (top sub : Given) (command : Option Command) : Invocation where
  command := command
  versionOnly := top.flags.contains .versionOnly
  config := (sub.value? .config).or (top.value? .config)
  chdir := (sub.value? .chdir).or (top.value? .chdir)
  json := top.flags.contains .json || sub.flags.contains .json

/-- Read a subcommand, and get back to what is pending before it. -/
def readSubcommand (top : Given) (scope : Scope) (arguments : List String) :
    Except Halt Invocation := do
  let sub ← readAll scope {} arguments
  let command ← commandOf sub scope
  let top ← top.settle
  pure (combine top sub command)

/-- Read what help was asked for about: a subcommand, which has no subcommands of its own. -/
def readHelp : List String → Halt
  | [] => .help
  | name :: rest =>
    if !isSubcommand name then .usage (.unknownSubcommand name)
    else
      match rest with
      | [] => .help
      | second :: _ => .usage (.unknownSubcommand second)

/-- Read the arguments of the command. -/
def readTop (given : Given) : List String → Except Halt Invocation
  | [] => do
    let given ← given.settle
    pure (combine given {} none)
  | argument :: rest =>
    if !given.trailing && !given.awaitsValue && argument == helpName then .error (readHelp rest)
    else
      match (if given.trailing || given.awaitsValue then none else Scope.ofName? argument) with
      | some scope => readSubcommand given scope rest
      | none =>
        match readArgument .top given argument with
        | .ok given => readTop given rest
        | .error e => .error e

/-- Read a command line. Nothing is returned for one that says nothing. -/
def readArguments (arguments : List String) : Except Halt (Option Invocation) :=
  match arguments with
  | [] => .ok none
  | ["--"] => .ok none
  | arguments => (readTop {} arguments).map some

end Cli

end YamlStyle
