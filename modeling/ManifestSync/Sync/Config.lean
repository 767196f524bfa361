import ManifestSync.Scan.Extraction
import ManifestSync.Sync.Failure
import ManifestSync.Toml.Document

/-!
# Configuration

Where a run finds the manifest and the sources, how it recognises tests, and where it puts the
statistics. A configuration is kept as a TOML document; every field has a default, and keys that
are no fields are ignored.
-/

namespace ManifestSync

/-- The configuration of a run. -/
structure Config where
  manifestPath : String := "./tests.yml"
  /-- The directory that is scanned. -/
  testsDir : String := "./tests"
  /-- What the names of test sources end with. -/
  fileExtensions : List String := [".spec.ts", ".test.js", ".spec.js"]
  /-- The word that starts every identifier. -/
  idPrefix : String := "TC"
  /-- How many bytes behind an annotation the title of its test may end. -/
  associationWindow : UInt64 := 500
  keyScope : KeyScope := .file
  statsPath : String := "./summary-stats.json"
  deriving DecidableEq, Repr, Inhabited

namespace Config

/-- Refuses a configuration with which no run could work. -/
def validate (config : Config) : Except Failure Unit :=
  if config.fileExtensions.isEmpty then .error (.configValue .noExtensions)
  else if (Text.trim config.idPrefix.toList).isEmpty then .error (.configValue .blankPrefix)
  else if config.associationWindow = 0 then .error (.configValue .zeroWindow)
  else .ok ()

/-- What the configuration says about scanning one source. Whether the patterns for its word can be
compiled is asked when a run is set up. -/
def settings (config : Config) : Scan.Settings :=
  ⟨.ofText config.idPrefix.toList, config.associationWindow⟩

/-! ## Reading -/

/-- A string. -/
def string? : Toml.Value → Option String
  | .string s => some s
  | _ => none

/-- A list of strings. -/
def strings? : Toml.Value → Option (List String)
  | .array items => items.mapM string?
  | _ => none

/-- A number that is not negative. -/
def window? : Toml.Value → Option UInt64
  | .integer n => if n < 0 then none else some (UInt64.ofNat n.toNat)
  | _ => none

/-- Whether a value is an empty table or an empty array. -/
def isHollow : Toml.Value → Bool
  | .table [] => true
  | .array [] => true
  | _ => false

/-- A key scope: its name, or a table with the name as its only key and nothing in it. -/
def scope? : Toml.Value → Option KeyScope
  | .string name => KeyScope.ofName? name
  | .table [(name, content)] => if isHollow content then KeyScope.ofName? name else none
  | _ => none

/-- Reads the value of a key, if a table has it, in place of a default. -/
def read? {α : Type} (entries : List (String × Toml.Value)) (key : String)
    (read : Toml.Value → Option α) (default : α) : Option α :=
  match Toml.lookup? key entries with
  | none => some default
  | some v => read v

/-- The configuration that the entries of a document describe. -/
def ofEntries? (entries : List (String × Toml.Value)) : Option Config := do
  let usual : Config := {}
  return {
    manifestPath := ← read? entries "manifest_path" string? usual.manifestPath
    testsDir := ← read? entries "tests_dir" string? usual.testsDir
    fileExtensions := ← read? entries "file_extensions" strings? usual.fileExtensions
    idPrefix := ← read? entries "id_prefix" string? usual.idPrefix
    associationWindow := ← read? entries "association_window" window? usual.associationWindow
    keyScope := ← read? entries "key_scope" scope? usual.keyScope
    statsPath := ← read? entries "stats_path" string? usual.statsPath }

/-- The configuration of a text; `path` is where the text is kept. -/
def parse (path : String) (text : List Char) : Except Failure Config :=
  match (Toml.parse? text).bind ofEntries? with
  | none => .error (.configText path)
  | some config => config.validate.map fun _ => config

/-! ## Writing -/

/-- A list of strings: on one line if it has at most one item, else with one item on a line. -/
def renderList (items : List String) : List Char :=
  match items with
  | [] => ['[', ']']
  | [item] => '[' :: Toml.renderString item.toList ++ [']']
  | items =>
    ['[', '\n'] ++ items.flatMap (fun item =>
      List.replicate 4 ' ' ++ Toml.renderString item.toList ++ [',', '\n']) ++ [']']

/-- A line that gives a key a value. -/
def renderLine (key : String) (value : List Char) : List Char :=
  key.toList ++ ' ' :: '=' :: ' ' :: value ++ ['\n']

/-- The text of a configuration. A window beyond the integers of TOML cannot be written. -/
def render (config : Config) : Except Failure (List Char) :=
  if Nat.pow 2 63 ≤ config.associationWindow.toNat then .error (.configValue .windowTooLarge)
  else .ok (renderLine "manifest_path" (Toml.renderString config.manifestPath.toList)
    ++ renderLine "tests_dir" (Toml.renderString config.testsDir.toList)
    ++ renderLine "file_extensions" (renderList config.fileExtensions)
    ++ renderLine "id_prefix" (Toml.renderString config.idPrefix.toList)
    ++ renderLine "association_window" (toString config.associationWindow.toNat).toList
    ++ renderLine "key_scope" (Toml.renderString config.keyScope.name.toList)
    ++ renderLine "stats_path" (Toml.renderString config.statsPath.toList))

end Config

end ManifestSync
