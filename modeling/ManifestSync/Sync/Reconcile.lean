import ManifestSync.Manifest.Entry
import Std.Data.TreeSet

/-!
# Reconciling a manifest with the code

The code decides what is true of the tests that it contains, and the manifest decides which tests
exist. `reconcile` overwrites the fields of every entry whose key the scan has found, marks the
others as not automated, and reports the keys that only one side has: shadows are in the code alone,
orphans in the manifest alone. Shadows can be accepted; they are then appended in key order.
-/

namespace ManifestSync

/-! ## Tags as sets -/

/-- The distinct texts of a list in increasing order. -/
def canonicalTags (tags : List String) : List String :=
  (Std.TreeSet.ofList tags).toList

/-- Whether two lists hold the same tags; no list is the same as an empty one. -/
def sameTags (a b : Option (List String)) : Bool :=
  canonicalTags (a.getD []) == canonicalTags (b.getD [])

/-! ## One entry -/

/-- The value of a field after an update, and the field if its value has changed. -/
structure Slot (α : Type) where
  value : α
  changed : List Field

namespace Slot

/-- Leaves a field as it is. -/
def keep {α : Type} (old : α) : Slot α := ⟨old, []⟩

/-- Gives a field a new value. -/
def overwrite {α : Type} [DecidableEq α] (field : Field) (old new : α) : Slot α :=
  if old = new then keep old else ⟨new, [field]⟩

/-- Gives the tags of an entry a new value, unless it holds the same tags as the old one. -/
def overwriteTags (old new : Option (List String)) : Slot (Option (List String)) :=
  if sameTags old new then keep old else ⟨new, [.tags]⟩

end Slot

/-- The file of an entry after an update. Within a file scope it is part of the key and stays. -/
def fileSlot (scope : KeyScope) (entry : Entry) (m : Metadata) : Slot String :=
  match scope with
  | .file => .keep entry.testFile
  | .global => .overwrite .testFile entry.testFile m.testFile

/-- An entry after an update, with the fields that have changed. -/
structure Revision where
  entry : Entry
  changed : List Field

/-- Brings an entry in line with what the code says about its test. -/
def Entry.align (entry : Entry) (scope : KeyScope) (m : Metadata) : Revision :=
  let testFile := fileSlot scope entry m
  let title := Slot.overwrite .title entry.title m.title
  let bugId := Slot.overwrite .bugId entry.bugId m.bugId
  let priority := Slot.overwrite .priority entry.priority m.priority
  let feature := Slot.overwrite .feature entry.feature m.feature
  let tags := Slot.overwriteTags entry.tags m.tags
  let isSkipped := Slot.overwrite .isSkipped entry.isSkipped m.isSkipped
  let automation := Slot.overwrite .automation entry.automation m.automation
  let description := Slot.overwrite .description entry.description m.description
  let expectedResult := Slot.overwrite .expectedResult entry.expectedResult m.expectedResult
  let isAutomated := Slot.overwrite .isAutomated entry.isAutomated true
  { entry :=
      { testId := entry.testId
        testFile := testFile.value
        title := title.value
        bugId := bugId.value
        priority := priority.value
        feature := feature.value
        tags := tags.value
        isSkipped := isSkipped.value
        automation := automation.value
        description := description.value
        expectedResult := expectedResult.value
        isAutomated := isAutomated.value
        extra := entry.extra }
    changed := testFile.changed ++ title.changed ++ bugId.changed ++ priority.changed
      ++ feature.changed ++ tags.changed ++ isSkipped.changed ++ automation.changed
      ++ description.changed ++ expectedResult.changed ++ isAutomated.changed }

/-- Marks an entry whose test is not in the code. -/
def Entry.orphan (entry : Entry) : Revision :=
  let isAutomated := Slot.overwrite .isAutomated entry.isAutomated false
  ⟨{ entry with isAutomated := isAutomated.value }, isAutomated.changed⟩

/-- The update of an entry that a scan asks for. -/
def Entry.revise (entry : Entry) (scope : KeyScope) (index : ScanIndex) : Revision :=
  match index[entry.key scope]? with
  | some m => entry.align scope m
  | none => entry.orphan

/-! ## The whole manifest -/

/-- The fields that have changed in the entry of a key. -/
structure Update where
  key : TestKey
  fields : List Field
  deriving DecidableEq, Repr

/-- What a reconciliation has found and done. -/
structure Report where
  updates : List Update := []
  /-- Keys in the code that the manifest lacks. -/
  shadows : List TestKey := []
  /-- Keys in the manifest that the code lacks. -/
  orphans : List TestKey := []
  /-- Keys that have been added to the manifest. -/
  promoted : List TestKey := []
  deriving DecidableEq, Repr, Inhabited

/-- Whether the code has tests that the manifest lacks. -/
def Report.hasShadows (report : Report) : Bool := !report.shadows.isEmpty

/-- The updates of the entries that have changed, in the order of the entries. -/
def updatesOf (scope : KeyScope) (index : ScanIndex) (entries : List Entry) : List Update :=
  entries.filterMap fun entry =>
    let changed := (entry.revise scope index).changed
    if changed.isEmpty then none else some ⟨entry.key scope, changed⟩

/-- The keys of a list of entries. -/
def keysOf (scope : KeyScope) (entries : List Entry) : Std.TreeSet TestKey :=
  Std.TreeSet.ofList (entries.map (·.key scope))

/-- The keys of the entries whose tests are not in the code. -/
def orphansOf (scope : KeyScope) (index : ScanIndex) (entries : List Entry) : List TestKey :=
  (keysOf scope (entries.filter fun entry => !index.contains (entry.key scope))).toList

/-- The tests of the code that have no entry, in key order. -/
def missingFrom (index : ScanIndex) (known : Std.TreeSet TestKey) : List (TestKey × Metadata) :=
  index.toList.filter fun (key, _) => !known.contains key

/-- Brings the entries of a manifest in line with the code. With `accept`, tests that have no entry
get one at the end; otherwise they are reported as shadows. -/
def reconcile (scope : KeyScope) (entries : List Entry) (index : ScanIndex) (accept : Bool) :
    List Entry × Report :=
  let revised := entries.map fun entry => (entry.revise scope index).entry
  let missing := missingFrom index (keysOf scope revised)
  let keys := missing.map (·.1)
  let report : Report :=
    { updates := updatesOf scope index entries
      shadows := if accept then [] else keys
      orphans := orphansOf scope index entries
      promoted := if accept then keys else [] }
  let added := if accept then missing.map fun (_, m) => Entry.ofMetadata m else []
  (revised ++ added, report)

end ManifestSync
