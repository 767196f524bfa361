import ManifestSync.Manifest.Key

/-!
# What the code says about a test

`Metadata` is what scanning finds out about one declared test, and `ScanIndex` holds it for every
key that the sources declare.
-/

namespace ManifestSync

/-- How a test is exercised. -/
inductive Automation where
  | ui
  | manual
  deriving DecidableEq, Repr, Inhabited

namespace Automation

/-- A skipped test counts as manual, every other one runs through the user interface. -/
def ofSkipped (skipped : Bool) : Automation :=
  if skipped then .manual else .ui

/-- The word for a kind of automation. -/
def name : Automation → String
  | .ui => "ui"
  | .manual => "manual"

/-- The kind of automation that a word stands for. -/
def ofName? (name : String) : Option Automation :=
  [Automation.ui, Automation.manual].find? (·.name == name)

end Automation

/-- What the code says about one declared test. -/
structure Metadata where
  testId : String
  /-- The declaring file, relative to the scan root. -/
  testFile : String
  title : String
  bugId : Option String
  priority : Option String
  feature : Option String
  tags : Option (List String)
  isSkipped : Bool
  automation : Automation
  description : Option String
  expectedResult : Option String
  deriving DecidableEq, Repr, Inhabited

/-- The metadata of every test that the sources declare, by key. -/
abbrev ScanIndex := Std.TreeMap TestKey Metadata

end ManifestSync
