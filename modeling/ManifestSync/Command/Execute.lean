import ManifestSync.Command.Output

/-!
# Executing a command line

`execute` reads the arguments and the configuration, does what they ask for on a disk, and returns
what is printed together with the disk afterwards. The exit status is 0 when all is well, 1 when the
code has tests that the manifest lacks, and 2 when nothing could be done.
-/

namespace ManifestSync.Command

open Files (Disk)

/-- The exit status of a run that has failed. -/
def failed : Nat := 2

/-- The name of the program. -/
def programName : String := "tcsync"

/-- The version of the program. -/
def programVersion : String := "0.1.0"

/-- How the program is called. -/
def usage : List Char :=
  line "Usage: tcsync [--config PATH] [--format table|json|yaml] [--verbose] COMMAND"
    ++ line ""
    ++ line "Commands:"
    ++ line "  sync  Reconcile the manifest with the test sources"
    ++ line "        [--manifest PATH] [--tests-dir PATH] [--stats PATH] [--dry-run]"
    ++ line "        [--accept-shadows]"
    ++ line "  scan  List the tests in the sources [--tests-dir PATH]"

/-- What is printed when there is nothing to do. -/
def Stop.response : Stop → Response
  | .misuse => { exit := failed, err := line "error: the arguments are not understood" ++ usage }
  | .version none => { exit := 0, out := line (programName ++ " " ++ programVersion) }
  | .version (some verb) =>
    { exit := 0, out := line (programName ++ "-" ++ verb.name ++ " " ++ programVersion) }
  | .help => { exit := 0, out := usage }

/-- What is printed when something has failed. -/
def failureResponse (context : String) (failure : Failure) : Response :=
  { exit := failed, err := errorLine (context ++ failure.message) }

/-- A configuration with the parts that the options of a command replace. -/
def Task.adjust (config : Config) : Task → Config
  | .sync manifest testsDir stats _ =>
    { config with
      manifestPath := manifest.getD config.manifestPath
      testsDir := testsDir.getD config.testsDir
      statsPath := stats.getD config.statsPath }
  | .scan testsDir => { config with testsDir := testsDir.getD config.testsDir }

/-- Does a task under a configuration. `now` is the time of the run. -/
def perform (config : Config) (format : Format) (now : String) (disk : Disk) :
    Task → Response × Disk
  | .sync _ _ _ options =>
    match run config options now disk with
    | (.ok outcome, disk) => (renderOutcome format options outcome, disk)
    | (.error failure, disk) => (failureResponse "" failure, disk)
  | .scan _ =>
    match scanOnly config disk with
    | .ok found => ({ exit := 0, out := renderScan format found }, disk)
    | .error failure => (failureResponse "" failure, disk)

/-- Runs the program with some arguments. `now` is the time of the run. -/
def execute (args : List String) (now : String) (disk : Disk) : Response × Disk :=
  match parse args with
  | .error stop => (stop.response, disk)
  | .ok invocation =>
    match loadConfig disk invocation.configPath with
    | .error failure =>
      (failureResponse ("loading configuration from " ++ invocation.configPath ++ ": ") failure,
        disk)
    | .ok config =>
      perform (invocation.task.adjust config) invocation.format now disk invocation.task

end ManifestSync.Command
