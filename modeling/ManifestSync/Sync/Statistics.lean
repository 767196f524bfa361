import ManifestSync.Decimal.Text
import ManifestSync.Json.Value
import ManifestSync.Sync.Reconcile

/-!
# Statistics of a run

How many entries the manifest has, how many of them are automated or left to manual testing, and
which keys only one side knows. The share of automated entries is a percentage with two places,
computed in floating-point numbers of 64 bits.
-/

namespace ManifestSync

open Decimal (Binary64)

/-- The summary of a run. -/
structure Statistics where
  totalManifested : Nat
  /-- Entries that are in the code and not skipped. -/
  automated : Nat
  /-- Entries that are skipped, in the code or not. -/
  manual : Nat
  /-- The percentage of automated entries. -/
  coverage : String
  shadowCount : Nat
  shadowTests : List String
  orphanCount : Nat
  orphanedTests : List String
  timestamp : String
  deriving DecidableEq, Repr, Inhabited

/-- A hundred times the quotient of two numbers, both operations rounded, with two places. -/
def percentage (part whole : Nat) : String :=
  let quotient (num den : Nat) : Nat × Nat :=
    if num = 0 then (0, 1)
    else match Binary64.nearest false num den with
      | .finite _ mantissa exponent => Binary64.ratio mantissa exponent
      | _ => (0, 1)
  let (num, den) := quotient part whole
  let (num, den) := quotient (num * 100) den
  String.ofList (Decimal.fixedTwo num den)

/-- The share of automated entries in words. -/
def coverageText (automated total : Nat) : String :=
  if total = 0 then "0" else percentage automated total

namespace Statistics

/-- The summary of the entries after a reconciliation. -/
def compute (entries : List Entry) (report : Report) (timestamp : String) : Statistics :=
  let automated := entries.countP fun entry => entry.isAutomated && !entry.isSkipped
  { totalManifested := entries.length
    automated
    manual := entries.countP (·.isSkipped)
    coverage := coverageText automated entries.length
    shadowCount := report.shadows.length
    shadowTests := report.shadows.map (·.display)
    orphanCount := report.orphans.length
    orphanedTests := report.orphans.map (·.display)
    timestamp }

/-- Whether two summaries agree in all but their time. -/
def sameCounts (a b : Statistics) : Bool :=
  { a with timestamp := "" } == { b with timestamp := "" }

/-- A summary as a JSON record. -/
def toJson (s : Statistics) : Json.Value :=
  .record [("totalManifested", .nat s.totalManifested), ("automated", .nat s.automated),
    ("manual", .nat s.manual), ("coverage", .text s.coverage),
    ("shadowCount", .nat s.shadowCount), ("shadowTests", .list (s.shadowTests.map .text)),
    ("orphanCount", .nat s.orphanCount), ("orphanedTests", .list (s.orphanedTests.map .text)),
    ("timestamp", .text s.timestamp)]

end Statistics

end ManifestSync
