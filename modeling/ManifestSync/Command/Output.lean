import ManifestSync.Command.Arguments
import ManifestSync.Command.Table

/-!
# What the program prints

The results of the two commands, as tables with messages for people, or as one JSON or YAML value
for other programs. Errors go to the second stream.
-/

namespace ManifestSync

namespace Json.Value

/-- A text, or null. -/
def ofOption : Option String → Json.Value
  | none => .null
  | some s => .text s

/-- A list of texts. -/
def texts (items : List String) : Json.Value := .list (items.map .text)

end Json.Value

open Json.Value (ofOption texts)

/-- The fields of a test, in the order in which records have them. -/
def Metadata.jsonFields (m : Metadata) : List (String × Json.Value) :=
  [("testId", .text m.testId), ("testFile", .text m.testFile), ("title", .text m.title),
    ("bugId", ofOption m.bugId), ("priority", ofOption m.priority),
    ("feature", ofOption m.feature), ("tags", (m.tags.map texts).getD .null),
    ("isSkipped", .bool m.isSkipped), ("automation", .text m.automation.name),
    ("description", ofOption m.description), ("expectedResult", ofOption m.expectedResult)]

/-- An update as a JSON record. -/
def Update.toJson (update : Update) : Json.Value :=
  .record [("key", .text update.key.display), ("fields", texts (update.fields.map (·.name)))]

namespace Command

/-- What a run of the program leaves behind besides files. -/
structure Response where
  /-- The exit status. -/
  exit : Nat
  out : List Char := []
  err : List Char := []
  deriving DecidableEq, Repr, Inhabited

/-- A line that ends. -/
def line (text : String) : List Char := text.toList ++ ['\n']

/-- A line for something worth knowing. -/
def infoLine (text : String) : List Char := line ("ℹ️  " ++ text)

/-- A line for something that may be amiss. -/
def warningLine (text : String) : List Char := line ("⚠️  " ++ text)

/-- A line for something that has been done. -/
def successLine (text : String) : List Char := line ("✅ " ++ text)

/-- A line for an error. -/
def errorLine (text : String) : List Char := line ("❌ " ++ text)

/-- Texts with commas between them. -/
def commaList (items : List String) : String := String.intercalate ", " items

/-- A value for other programs. -/
def renderValue (format : Format) (v : Json.Value) : List Char :=
  match format with
  | .yaml => v.toYaml.render
  | _ => v.render ++ ['\n']

/-! ## The tests that a scan has found -/

/-- The heading of the table of tests. -/
def testsHeading : List String := ["ID", "File", "Title", "Bug", "Priority", "Tags", "Automation"]

/-- The row of a test. -/
def testRow (m : Metadata) : List String :=
  [m.testId, m.testFile, m.title, m.bugId.getD "", m.priority.getD "",
    String.intercalate " " (m.tags.getD []), m.automation.name]

/-- A test for other programs. -/
def testToJson (key : TestKey) (m : Metadata) : Json.Value :=
  .record (("key", .text key.display) :: m.jsonFields)

/-- The tests as a table. -/
def testsTable (tests : List (TestKey × Metadata)) : List Char :=
  if tests.isEmpty then line "No tests found."
  else drawTable testsHeading (tests.map fun (_, m) => testRow m)

/-- What a scan has found. -/
def renderScan (format : Format) (found : ScanSummary) : List Char :=
  let tests := found.index.toList
  match format with
  | .table =>
    testsTable tests ++ infoLine (toString tests.length ++ " tests in "
      ++ toString found.filesScanned ++ " files, " ++ toString found.unidentified
      ++ " declarations without an identifier")
  | _ => renderValue format (.list (tests.map fun (key, m) => testToJson key m))

/-! ## The outcome of a run -/

/-- The outcome of a run for other programs. -/
def outcomeToJson (options : Options) (outcome : Outcome) : Json.Value :=
  .record [("stats", outcome.statistics.toJson),
    ("updated", .list (outcome.report.updates.map Update.toJson)),
    ("promoted", texts (outcome.report.promoted.map (·.display))),
    ("filesScanned", .nat outcome.filesScanned),
    ("unidentifiedTests", .nat outcome.unidentified),
    ("dryRun", .bool options.dryRun)]

/-- The rows of the table of an outcome. -/
def outcomeRows (outcome : Outcome) : List (List String) :=
  let s := outcome.statistics
  [["Files scanned", toString outcome.filesScanned],
    ["Total manifested", toString s.totalManifested],
    ["Automated", toString s.automated],
    ["Manual", toString s.manual],
    ["Coverage", s.coverage ++ "%"],
    ["Shadow tests", toString s.shadowCount],
    ["Orphaned tests", toString s.orphanCount],
    ["Without identifier", toString outcome.unidentified],
    ["Timestamp", s.timestamp]]

/-- The messages on what has changed in the manifest. -/
def changeLines (outcome : Outcome) : List Char :=
  outcome.report.updates.flatMap (fun update => infoLine ("[UPDATE] " ++ update.key.display ++ ": "
      ++ commaList (update.fields.map (·.name))))
    ++ outcome.report.promoted.flatMap (fun key => infoLine ("[ADDED] " ++ key.display))
    ++ if outcome.report.orphans.isEmpty then []
      else warningLine ("Orphaned tests (in the manifest, not found in code): "
        ++ commaList outcome.statistics.orphanedTests)

/-- The message at the end of a run. -/
def closingLine (options : Options) : List Char :=
  successLine (if options.dryRun then "Dry run complete, nothing written" else "Sync Complete!")

/-- The messages on tests that the manifest lacks. -/
def shadowLines (outcome : Outcome) : List Char :=
  if outcome.report.hasShadows then
    errorLine "Shadow Tests Detected!"
      ++ errorLine "The following tests exist in code but are NOT registered in the manifest:"
      ++ errorLine (commaList outcome.statistics.shadowTests)
      ++ errorLine ("Action Required: register the shadow tests in the manifest or rerun with "
        ++ "--accept-shadows.")
  else []

/-- What a run has found and done. -/
def renderOutcome (format : Format) (options : Options) (outcome : Outcome) : Response :=
  match format with
  | .table =>
    { exit := outcome.exitCode
      out := changeLines outcome ++ closingLine options
        ++ drawTable ["Metric", "Value"] (outcomeRows outcome)
      err := shadowLines outcome }
  | _ =>
    { exit := outcome.exitCode, out := renderValue format (outcomeToJson options outcome) }

end Command

end ManifestSync
