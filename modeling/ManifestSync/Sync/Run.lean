import ManifestSync.Files.Sources
import ManifestSync.Manifest.Document
import ManifestSync.Sync.Config
import ManifestSync.Sync.Statistics

/-!
# A run

A run reads the manifest, scans the sources, reconciles the two and writes the statistics and the
manifest. All reading is done first, in `prepare`; `commit` writes. A dry run stops in between. Before
anything is read, `setUp` sees to it that the configuration can be used.
-/

namespace ManifestSync

open Files (Disk Source)

/-- Gives the failure of a file operation its path. -/
def onPath {α : Type} (path : String) : Except Files.Cause α → Except Failure α
  | .ok a => .ok a
  | .error cause => .error (.file path cause)

/-! ## Setting up -/

/-- Validates a configuration for a run: it has no useless values, and the patterns for its word can be
compiled. -/
def setUp (config : Config) (disk : Disk) : Except Failure Unit := do
  config.validate
  match disk.permit (.compile config.settings.idWord.word) with
  | .ok _ => .ok ()
  | .error _ => .error (.configValue .patternTooLarge)

/-! ## Scanning -/

/-- What scanning the sources has found. -/
structure ScanSummary where
  index : ScanIndex := {}
  filesScanned : Nat := 0
  unidentified : Nat := 0

/-- The test sources that a configuration asks for. -/
def sources (config : Config) (disk : Disk) : Except Failure (List Source) :=
  if !disk.isDir config.testsDir then .error (.scanRoot config.testsDir)
  else match Files.sourcesIn disk config.testsDir config.fileExtensions with
    | .ok found => .ok found
    | .error cause => .error (.directories cause)

/-- Takes in the tests of one source; a test replaces an earlier one with its key. -/
def ScanSummary.add (config : Config) (summary : ScanSummary) (relative : String)
    (found : Scan.FileScan) : ScanSummary where
  index := found.tests.toList.foldl
    (fun index (id, m) => index.insert (config.keyScope.key relative id) m) summary.index
  filesScanned := summary.filesScanned + 1
  unidentified := summary.unidentified + found.unidentified

/-- The tests of a source with its bytes; bytes that are not UTF-8 are read as U+FFFD. -/
def scanBytes (config : Config) (relative : String) (bytes : List UInt8) : Scan.FileScan :=
  Scan.extract config.settings relative (.ofChars (Text.decodeLossy bytes))

/-- Reads and takes in one source. -/
def ScanSummary.addSource (config : Config) (disk : Disk) (summary : ScanSummary)
    (source : Source) : Except Failure ScanSummary := do
  let bytes ← onPath source.path (disk.read source.path)
  return summary.add config source.relative (scanBytes config source.relative bytes)

/-- Scans all sources. -/
def scan (config : Config) (disk : Disk) : Except Failure ScanSummary := do
  (← sources config disk).foldlM (ScanSummary.addSource config disk) {}

/-! ## Reading and writing the manifest -/

/-- The entries of the manifest at a path. -/
def loadManifest (disk : Disk) (path : String) : Except Failure (List Entry) := do
  Manifest.parse path (← onPath path (disk.readText path))

/-- Writes a text to a file. -/
def writeText (disk : Disk) (path : String) (text : List Char) : Except Failure Disk :=
  onPath path (disk.write path (Text.utf8 text))

/-- Writes statistics to a file in a directory that is made if need be. -/
def writeStatistics (disk : Disk) (path : String) (statistics : Statistics) :
    Except Failure Unit × Disk :=
  let (made, disk) : Except Failure Unit × Disk :=
    match (Files.parent? path).filter (!·.isEmpty) with
    | none => (.ok (), disk)
    | some parent =>
      let (made, disk) := disk.makeDirs parent
      (onPath parent made, disk)
  match made with
  | .error e => (.error e, disk)
  | .ok _ =>
    match writeText disk path statistics.toJson.render with
    | .error e => (.error e, disk)
    | .ok disk => (.ok (), disk)

/-! ## The run -/

/-- What a run may do. -/
structure Options where
  /-- Writes nothing. -/
  dryRun : Bool := false
  /-- Adds the tests that the manifest lacks to it. -/
  acceptShadows : Bool := false
  deriving DecidableEq, Repr, Inhabited

/-- What a run has found. -/
structure Outcome where
  report : Report
  statistics : Statistics
  filesScanned : Nat
  unidentified : Nat
  deriving Repr, Inhabited

/-- The exit status after a run: 1 if tests are left that the manifest lacks. -/
def Outcome.exitCode (outcome : Outcome) : Nat := if outcome.report.hasShadows then 1 else 0

/-- What a run is going to write, and what it has found. -/
structure Plan where
  entries : List Entry
  outcome : Outcome

/-- Reads the manifest and the sources and reconciles them. `now` is the time of the run. -/
def prepare (config : Config) (options : Options) (now : String) (disk : Disk) :
    Except Failure Plan := do
  let loaded ← loadManifest disk config.manifestPath
  let found ← scan config disk
  let (entries, report) := reconcile config.keyScope loaded found.index options.acceptShadows
  let statistics := Statistics.compute entries report now
  return ⟨entries, ⟨report, statistics, found.filesScanned, found.unidentified⟩⟩

/-- Writes the statistics, and then the manifest. -/
def commit (config : Config) (plan : Plan) (disk : Disk) : Except Failure Unit × Disk :=
  match writeStatistics disk config.statsPath plan.outcome.statistics with
  | (.error e, disk) => (.error e, disk)
  | (.ok _, disk) =>
    match writeText disk config.manifestPath (Manifest.render plan.entries) with
    | .error e => (.error e, disk)
    | .ok disk => (.ok (), disk)

/-- Runs a configuration that has been set up. -/
def runSetUp (config : Config) (options : Options) (now : String) (disk : Disk) :
    Except Failure Outcome × Disk :=
  match prepare config options now disk with
  | .error e => (.error e, disk)
  | .ok plan =>
    if options.dryRun then (.ok plan.outcome, disk)
    else
      let (written, disk) := commit config plan disk
      (written.map fun _ => plan.outcome, disk)

/-- Brings the manifest in step with the sources. The configuration is set up first. -/
def run (config : Config) (options : Options) (now : String) (disk : Disk) :
    Except Failure Outcome × Disk :=
  match setUp config disk with
  | .error e => (.error e, disk)
  | .ok _ => runSetUp config options now disk

/-- Scans the sources of a configuration, which is set up first. -/
def scanOnly (config : Config) (disk : Disk) : Except Failure ScanSummary := do
  setUp config disk
  scan config disk

/-! ## Configuration files -/

/-- Reads the configuration at a path; where nothing is, the default one. -/
def loadConfig (disk : Disk) (path : String) : Except Failure Config := do
  if !disk.exists? path then return {}
  Config.parse path (← onPath path (disk.readText path))

/-- Writes a configuration to a file in a directory that is made if need be. -/
def saveConfig (disk : Disk) (path : String) (config : Config) : Except Failure Unit × Disk :=
  match config.render with
  | .error e => (.error e, disk)
  | .ok text =>
    match disk.makeDirs ((Files.parent? path).getD "") with
    | (.error cause, disk) => (.error (.directories cause), disk)
    | (.ok _, disk) =>
      match writeText disk path text with
      | .error e => (.error e, disk)
      | .ok disk => (.ok (), disk)

end ManifestSync
