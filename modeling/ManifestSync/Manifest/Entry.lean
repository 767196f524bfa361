import ManifestSync.Manifest.Extra
import ManifestSync.Manifest.Metadata

/-!
# Entries of the manifest

An entry is one declared test: the fields that are kept in step with the code, whether the code
automates it, and the keys that other tools or people have added.
-/

namespace ManifestSync

/-- One declared test. -/
structure Entry where
  testId : String
  testFile : String := ""
  title : String := ""
  bugId : Option String := none
  priority : Option String := none
  feature : Option String := none
  tags : Option (List String) := none
  isSkipped : Bool := false
  automation : Automation := .manual
  description : Option String := none
  expectedResult : Option String := none
  /-- Whether the test was found in the code. -/
  isAutomated : Bool := false
  /-- Keys that are carried through untouched. -/
  extra : Extra := .empty
  deriving Repr, Inhabited

namespace Entry

/-- The key of an entry under a scope. -/
def key (entry : Entry) (scope : KeyScope) : TestKey :=
  scope.key entry.testFile entry.testId

/-- The entry of a test that was found in the code. -/
def ofMetadata (m : Metadata) : Entry where
  testId := m.testId
  testFile := m.testFile
  title := m.title
  bugId := m.bugId
  priority := m.priority
  feature := m.feature
  tags := m.tags
  isSkipped := m.isSkipped
  automation := m.automation
  description := m.description
  expectedResult := m.expectedResult
  isAutomated := true

/-- Whether two entries agree in every field and in what their other keys mean. -/
def same (a b : Entry) : Bool :=
  a.testId == b.testId && a.testFile == b.testFile && a.title == b.title && a.bugId == b.bugId
    && a.priority == b.priority && a.feature == b.feature && a.tags == b.tags
    && a.isSkipped == b.isSkipped && a.automation == b.automation
    && a.description == b.description && a.expectedResult == b.expectedResult
    && a.isAutomated == b.isAutomated && a.extra.same b.extra

end Entry

/-- The fields of an entry that are managed, in the order in which records have them. -/
inductive Field where
  | testId
  | testFile
  | title
  | bugId
  | priority
  | feature
  | tags
  | isSkipped
  | automation
  | description
  | expectedResult
  | isAutomated
  deriving DecidableEq, Repr, Inhabited

namespace Field

/-- All managed fields. -/
def all : List Field :=
  [testId, testFile, title, bugId, priority, feature, tags, isSkipped, automation, description,
    expectedResult, isAutomated]

/-- The key of a field in a record. -/
def name : Field → String
  | testId => "testId"
  | testFile => "testFile"
  | title => "title"
  | bugId => "bugId"
  | priority => "priority"
  | feature => "feature"
  | tags => "tags"
  | isSkipped => "isSkipped"
  | automation => "automation"
  | description => "description"
  | expectedResult => "expectedResult"
  | isAutomated => "isAutomated"

/-- An older key that is still read for a field. -/
def alias? : Field → Option String
  | testId => some "test_id"
  | testFile => some "test_file"
  | bugId => some "bug_id"
  | feature => some "type"
  | isSkipped => some "is_skipped"
  | expectedResult => some "expected_result"
  | isAutomated => some "is_automated"
  | _ => none

/-- The field that a key stands for. -/
def ofKey? (key : String) : Option Field :=
  all.find? fun field => field.name == key || field.alias? == some key

end Field

end ManifestSync
