import ManifestSync.Files.Cause
import ManifestSync.Manifest.Record

/-!
# Why a run fails

Every failure ends a run. What is only odd in a source text, such as a title without an identifier,
is no failure.
-/

namespace ManifestSync

/-- What makes a configuration useless. -/
inductive ConfigFault where
  | noExtensions
  | blankPrefix
  | zeroWindow
  /-- A window that a configuration file has no number for. -/
  | windowTooLarge
  /-- A prefix that makes a pattern too large to be compiled. -/
  | patternTooLarge
  deriving DecidableEq, Repr, Inhabited

/-- A fault of a configuration in words. -/
def ConfigFault.message : ConfigFault → String
  | .noExtensions => "Invalid configuration: file_extensions must name at least one suffix"
  | .blankPrefix => "Invalid configuration: id_prefix must not be empty"
  | .zeroWindow => "Invalid configuration: association_window must be greater than zero"
  | .windowTooLarge => "Invalid configuration: out-of-range value for u64 type"
  | .patternTooLarge => "Invalid pattern: Compiled regex exceeds size limit of 10485760 bytes."

/-- Why a run has failed. -/
inductive Failure where
  /-- A file operation on a path. -/
  | file (path : String) (cause : Files.Cause)
  /-- The manifest is no YAML document. -/
  | yaml
  /-- The manifest at a path is no list. -/
  | manifestShape (path : String) (found : Yaml.Value)
  /-- A record of the manifest is no entry. -/
  | manifestRecord (index : Nat) (error : RecordError)
  /-- Directories cannot be listed or made. -/
  | directories (cause : Files.Cause)
  /-- The scan root is no directory. -/
  | scanRoot (path : String)
  /-- The configuration file at a path cannot be read. -/
  | configText (path : String)
  | configValue (fault : ConfigFault)
  deriving Repr, Inhabited

/-- A failure in words. -/
def Failure.message : Failure → String
  | .file path cause => "IO error on " ++ path ++ ": " ++ cause.message
  | .directories cause => "IO error: " ++ cause.message
  | .yaml => "YAML error: not one well-formed document"
  | .manifestShape path found =>
    path ++ " must be a list (starting with dashes '- '), found " ++ found.kind
  | .manifestRecord index error =>
    "Manifest record #" ++ toString index ++ " is invalid: " ++ error.message "unit value"
  | .scanRoot path => "Scan root is not a directory: " ++ path
  | .configText path => "Failed to load config file at " ++ path ++ ": not a configuration"
  | .configValue fault => fault.message

end ManifestSync
