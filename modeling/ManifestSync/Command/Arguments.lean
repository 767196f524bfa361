import ManifestSync.Sync.Run

/-!
# Arguments of the command line

The program is called with a command, `sync` or `scan`. Options are given before or behind it; those
that only one command has stand behind it. `parse` reads the arguments from left to right. A value
that stands in an argument of its own is looked at only when the next option is met or the arguments
of its level end, so a request for the version that comes earlier is answered in spite of it.
-/

namespace ManifestSync.Command

/-- How results are printed. -/
inductive Format where
  | table
  | json
  | yaml
  deriving DecidableEq, Repr, Inhabited

namespace Format

/-- The word for a format. -/
def name : Format → String
  | .table => "table"
  | .json => "json"
  | .yaml => "yaml"

/-- The format that a word stands for. -/
def ofName? (name : String) : Option Format :=
  [table, json, yaml].find? (·.name == name)

end Format

/-- What the program can be told to do. -/
inductive Verb where
  | sync
  | scan
  deriving DecidableEq, Repr, Inhabited

namespace Verb

/-- The word for a command. -/
def name : Verb → String
  | .sync => "sync"
  | .scan => "scan"

/-- The command that a word stands for. -/
def ofName? (name : String) : Option Verb :=
  [sync, scan].find? (·.name == name)

end Verb

/-- Where an argument stands: behind a command, or before any. -/
abbrev Level := Option Verb

/-- An option with a value. -/
inductive Setting where
  | config
  | format
  | manifest
  | testsDir
  | stats
  deriving DecidableEq, Repr, Inhabited

namespace Setting

/-- The name of an option, which follows two hyphens. -/
def name : Setting → String
  | .config => "config"
  | .format => "format"
  | .manifest => "manifest"
  | .testsDir => "tests-dir"
  | .stats => "stats"

/-- Whether an option is known at a level. -/
def isKnown (level : Level) : Setting → Bool
  | .config => true
  | .format => true
  | .testsDir => level.isSome
  | .manifest => level == some .sync
  | .stats => level == some .sync

/-- Whether an option can have a value: a format has a name, and a path is not empty. -/
def accepts (setting : Setting) (value : String) : Bool :=
  if setting = .format then (Format.ofName? value).isSome else !value.isEmpty

/-- The option that a name stands for at a level. -/
def ofName? (level : Level) (name : List Char) : Option Setting :=
  [config, format, manifest, testsDir, stats].find? fun s =>
    s.name.toList == name && s.isKnown level

end Setting

/-- An option without a value. -/
inductive Switch where
  | verbose
  | dryRun
  | acceptShadows
  | version
  | help
  deriving DecidableEq, Repr, Inhabited

namespace Switch

/-- The name of an option, which follows two hyphens. -/
def name : Switch → String
  | .verbose => "verbose"
  | .dryRun => "dry-run"
  | .acceptShadows => "accept-shadows"
  | .version => "version"
  | .help => "help"

/-- Whether an option is known at a level. -/
def isKnown (level : Level) : Switch → Bool
  | .dryRun => level == some .sync
  | .acceptShadows => level == some .sync
  | _ => true

/-- The option that a name stands for at a level. -/
def ofName? (level : Level) (name : List Char) : Option Switch :=
  [verbose, dryRun, acceptShadows, version, help].find? fun s =>
    s.name.toList == name && s.isKnown level

/-- The option that a letter behind one hyphen stands for. -/
def ofLetter? : Char → Option Switch
  | 'v' => some .verbose
  | 'V' => some .version
  | 'h' => some .help
  | _ => none

end Switch

/-- Why reading the arguments ends without anything to do. -/
inductive Stop where
  /-- The arguments cannot be understood. -/
  | misuse
  /-- The version is asked for. -/
  | version (level : Level)
  | help
  deriving DecidableEq, Repr, Inhabited

/-! ## The options of one level -/

/-- An option that was read last and whose value has not been looked at, if it is there. -/
structure Pending where
  setting : Setting
  value : Option String
  deriving DecidableEq, Repr

/-- The options that have been read at a level. -/
structure Given where
  settings : List (Setting × String) := []
  switches : List Switch := []
  pending : Option Pending := none
  deriving DecidableEq, Repr, Inhabited

namespace Given

/-- Takes in an option with its value. An option can be given once. -/
def set (given : Given) (setting : Setting) (value : String) : Except Stop Given :=
  if setting.accepts value && !given.settings.any (·.1 == setting) then
    .ok { given with settings := given.settings ++ [(setting, value)], pending := none }
  else .error .misuse

/-- Takes in the option that has not been looked at. -/
def settle (given : Given) : Except Stop Given :=
  match given.pending with
  | none => .ok given
  | some ⟨_, none⟩ => .error .misuse
  | some ⟨setting, some value⟩ => given.set setting value

/-- Takes in an option without a value. -/
def turnOn (given : Given) (level : Level) (switch : Switch) : Except Stop Given := do
  let given ← given.settle
  match switch with
  | .version => .error (.version level)
  | .help => .error .help
  | _ =>
    if given.switches.contains switch then .error .misuse
    else .ok { given with switches := given.switches ++ [switch] }

/-- Takes in an option by its name, with the value that an equals sign has joined to it. -/
def readLong (given : Given) (level : Level) (name : List Char) (joined : Option String) :
    Except Stop Given :=
  match Setting.ofName? level name, Switch.ofName? level name, joined with
  | some setting, _, some value => do (← given.settle).set setting value
  | some setting, _, none => do
    return { (← given.settle) with pending := some ⟨setting, none⟩ }
  | none, some switch, none => given.turnOn level switch
  | none, _, _ => .error .misuse

/-- Takes in the options of some letters behind one hyphen. -/
def readLetters (given : Given) (level : Level) (letters : List Char) : Except Stop Given :=
  letters.foldlM (fun given letter =>
    match Switch.ofLetter? letter with
    | some switch => given.turnOn level switch
    | none => .error .misuse) given

/-- The value of an option. -/
def value? (given : Given) (setting : Setting) : Option String :=
  (given.settings.find? (·.1 == setting)).map (·.2)

end Given

/-! ## Reading a level -/

/-- What an argument is by its looks. -/
inductive Word where
  /-- Two hyphens: no options follow. -/
  | ending
  | long (name : List Char) (joined : Option String)
  | letters (letters : List Char)
  | plain

/-- Cuts off what an equals sign joins to a name. -/
def cutJoined (text : List Char) : List Char × Option String :=
  (text.takeWhile (· != '='),
    match text.dropWhile (· != '=') with
    | [] => none
    | _ :: value => some (String.ofList value))

/-- What an argument is. A single hyphen is plain. -/
def Word.ofText (text : String) : Word :=
  match text.toList with
  | ['-', '-'] => .ending
  | '-' :: '-' :: rest => .long (cutJoined rest).1 (cutJoined rest).2
  | ['-'] => .plain
  | '-' :: rest => .letters rest
  | _ => .plain

/-- Reads the arguments of a level. Before any command, a command ends the level: it is returned
with the arguments behind it. -/
def readLevel (level : Level) : (args : List String) → Given →
    Except Stop (Given × Option (Verb × List String))
  | [], given => .ok (given, none)
  | arg :: rest, given =>
    match Word.ofText arg with
    | .ending => if rest.isEmpty then .ok (given, none) else .error .misuse
    | .long name joined => do readLevel level rest (← given.readLong level name joined)
    | .letters letters => do readLevel level rest (← given.readLetters level letters)
    | .plain =>
      match given.pending with
      | some ⟨setting, none⟩ =>
        readLevel level rest { given with pending := some ⟨setting, some arg⟩ }
      | _ =>
        if level.isSome then .error .misuse
        else match Verb.ofName? arg with
          | some verb => .ok (given, some (verb, rest))
          | none => .error (if arg = "help" then .help else .misuse)

/-! ## The whole line -/

/-- What the program is told to do, with what stands in for parts of the configuration. -/
inductive Task where
  | sync (manifest testsDir stats : Option String) (options : Options)
  | scan (testsDir : Option String)
  deriving DecidableEq, Repr

/-- What the arguments ask for. -/
structure Invocation where
  /-- Where the configuration is. -/
  configPath : String
  format : Format
  task : Task
  deriving DecidableEq, Repr

/-- Where the configuration is unless an option says otherwise. -/
def defaultConfigPath : String := "tcsync.toml"

/-- The task of a command with its options. -/
def taskOf (given : Given) : Verb → Task
  | .sync =>
    .sync (given.value? .manifest) (given.value? .testsDir) (given.value? .stats)
      ⟨given.switches.contains .dryRun, given.switches.contains .acceptShadows⟩
  | .scan => .scan (given.value? .testsDir)

/-- What a command asks for, with the options before and behind it; those behind it count more. -/
def Invocation.ofGiven (outer inner : Given) (verb : Verb) : Invocation where
  configPath := ((inner.value? .config).or (outer.value? .config)).getD defaultConfigPath
  format := (((inner.value? .format).or (outer.value? .format)).bind Format.ofName?).getD .table
  task := taskOf inner verb

/-- Reads the arguments of the program. -/
def parse (args : List String) : Except Stop Invocation := do
  let (outer, command) ← readLevel none args {}
  match command with
  | none => .error .misuse
  | some (verb, rest) =>
    let (inner, _) ← readLevel (some verb) rest {}
    let inner ← inner.settle
    let outer ← outer.settle
    return .ofGiven outer inner verb

end ManifestSync.Command
