import Mathlib.Tactic.SplitIfs
import ManifestSync.Sync.Reconcile

/-!
# What the update of one entry does

`Entry.align` goes through the fields of an entry one by one. Here its effect is said at once: the
entry agrees with the scanned metadata (`Entry.Agrees`), keeps what the code does not own, and an
entry that agrees already is left as it is. The tags are the one field that is not simply copied:
they are compared as sets, so that an entry may keep another order of the same tags.

`Entry.updated` is the update as a function of the entry and of what the index has for its key. The
other modules on reconciliation use it and the laws of this module, and never open `Entry.align`.
-/

namespace ManifestSync

/-! ## Tags -/

/-- The distinct tags of two lists agree exactly if the lists hold the same tags. -/
theorem canonicalTags_eq_iff (as bs : List String) :
    canonicalTags as = canonicalTags bs ↔ ∀ tag, tag ∈ as ↔ tag ∈ bs := by
  unfold canonicalTags
  rw [← Std.TreeSet.equiv_iff_toList_eq, Std.TreeSet.equiv_iff_forall_mem_iff]
  simp only [Std.TreeSet.mem_ofList, List.contains_iff_mem]

/-- Two lists of tags count as the same exactly if they hold the same tags. -/
theorem sameTags_iff_mem (as bs : Option (List String)) :
    sameTags as bs = true ↔ ∀ tag, tag ∈ as.getD [] ↔ tag ∈ bs.getD [] := by
  unfold sameTags
  rw [beq_iff_eq, canonicalTags_eq_iff]

/-- A list of tags counts as the same as itself. -/
@[simp]
theorem sameTags_self (tags : Option (List String)) : sameTags tags tags = true := by
  rw [sameTags_iff_mem]
  exact fun _ => Iff.rfl

/-! ## Slots -/

namespace Slot

/-- An overwritten field has its new value. -/
@[simp]
theorem value_overwrite {α : Type} [DecidableEq α] (field : Field) (old new : α) :
    (overwrite field old new).value = new := by
  unfold overwrite
  split_ifs with h
  · exact h
  · rfl

/-- The tags after an update are the old ones if these are the same as the new ones. -/
theorem value_overwriteTags (old new : Option (List String)) :
    (overwriteTags old new).value = if sameTags old new then old else new := by
  unfold overwriteTags
  split_ifs <;> rfl

/-- The tags after an update are the same as the scanned ones. -/
@[simp]
theorem sameTags_overwriteTags (old new : Option (List String)) :
    sameTags (overwriteTags old new).value new = true := by
  rw [value_overwriteTags]
  split_ifs with h
  · exact h
  · exact sameTags_self new

end Slot

/-! ## Agreement with the code -/

/-- An entry says of its test what the code says: every field that the code owns has the scanned
value, and the tags are the same. -/
structure Entry.Agrees (e : Entry) (m : Metadata) : Prop where
  title : e.title = m.title
  bugId : e.bugId = m.bugId
  priority : e.priority = m.priority
  feature : e.feature = m.feature
  /-- The tags are equal as sets; no list is an empty one. -/
  tags : ∀ tag, tag ∈ e.tags.getD [] ↔ tag ∈ m.tags.getD []
  isSkipped : e.isSkipped = m.isSkipped
  automation : e.automation = m.automation
  description : e.description = m.description
  expectedResult : e.expectedResult = m.expectedResult

/-- The entry of a test that was found in the code agrees with it. -/
theorem Entry.agrees_ofMetadata (m : Metadata) : (Entry.ofMetadata m).Agrees m :=
  ⟨rfl, rfl, rfl, rfl, fun _ => Iff.rfl, rfl, rfl, rfl, rfl⟩

/-- Where the code declares the test of an entry, the file of the entry after an update: the declaring
file under the global scope, and the old one within a file. -/
theorem value_fileSlot (scope : KeyScope) (e : Entry) (m : Metadata) :
    (fileSlot scope e m).value = if scope = .global then m.testFile else e.testFile := by
  cases scope
  · rfl
  · simp [fileSlot]

namespace Entry

/-- An updated entry agrees with the code. -/
theorem agrees_align (e : Entry) (scope : KeyScope) (m : Metadata) :
    (e.align scope m).entry.Agrees m where
  title := Slot.value_overwrite _ _ _
  bugId := Slot.value_overwrite _ _ _
  priority := Slot.value_overwrite _ _ _
  feature := Slot.value_overwrite _ _ _
  tags := (sameTags_iff_mem _ _).1 (Slot.sameTags_overwriteTags e.tags m.tags)
  isSkipped := Slot.value_overwrite _ _ _
  automation := Slot.value_overwrite _ _ _
  description := Slot.value_overwrite _ _ _
  expectedResult := Slot.value_overwrite _ _ _

/-- An updated entry keeps its identifier. -/
@[simp]
theorem testId_align (e : Entry) (scope : KeyScope) (m : Metadata) :
    (e.align scope m).entry.testId = e.testId := rfl

/-- An updated entry keeps its unmanaged keys. -/
@[simp]
theorem extra_align (e : Entry) (scope : KeyScope) (m : Metadata) :
    (e.align scope m).entry.extra = e.extra := rfl

/-- An updated entry is marked as automated. -/
@[simp]
theorem isAutomated_align (e : Entry) (scope : KeyScope) (m : Metadata) :
    (e.align scope m).entry.isAutomated = true := Slot.value_overwrite _ _ _

/-- The file of an updated entry. -/
theorem testFile_align (e : Entry) (scope : KeyScope) (m : Metadata) :
    (e.align scope m).entry.testFile = if scope = .global then m.testFile else e.testFile :=
  value_fileSlot scope e m

/-- An update changes no key: under the global scope the file is no part of it, and within a file
the file stays. -/
@[simp]
theorem key_align (e : Entry) (scope : KeyScope) (m : Metadata) :
    (e.align scope m).entry.key scope = e.key scope := by
  cases scope <;> rfl

/-- An automated entry that agrees with the code, and is in the declaring file if the scope is
global, stays as it is. -/
theorem align_of_agrees {e : Entry} {scope : KeyScope} {m : Metadata} (h : e.Agrees m)
    (hfile : scope = .global → e.testFile = m.testFile) (hauto : e.isAutomated = true) :
    e.align scope m = ⟨e, []⟩ := by
  have htags : Slot.overwriteTags e.tags m.tags = .keep e.tags :=
    if_pos ((sameTags_iff_mem _ _).2 h.tags)
  have hslot : fileSlot scope e m = .keep e.testFile := by
    cases scope
    · rfl
    · exact if_pos (hfile rfl)
  simp only [align, Slot.overwrite, Slot.keep, htags, hslot, ← h.title, ← h.bugId, ← h.priority,
    ← h.feature, ← h.isSkipped, ← h.automation, ← h.description, ← h.expectedResult, hauto, if_true,
    List.append_nil]
  rw [← hauto]

/-- An entry without code is marked as not automated and else left as it is. -/
@[simp]
theorem entry_orphan (e : Entry) : e.orphan.entry = { e with isAutomated := false } := by
  simp [orphan]

/-- An entry without code that is marked as such stays as it is. -/
theorem orphan_of_not_automated {e : Entry} (h : e.isAutomated = false) : e.orphan = ⟨e, []⟩ := by
  simp only [orphan, Slot.overwrite, Slot.keep, h, if_true]
  rw [← h]

/-! ## The update as a function of what the code says -/

/-- An entry after an update, given what the index has for its key. -/
def updated (e : Entry) (scope : KeyScope) : Option Metadata → Entry
  | some m => (e.align scope m).entry
  | none => e.orphan.entry

/-- The update that a scan asks for depends on the index only through its entry for the key. -/
theorem entry_revise (e : Entry) (scope : KeyScope) (index : ScanIndex) :
    (e.revise scope index).entry = e.updated scope index[e.key scope]? := by
  unfold revise updated
  cases index[e.key scope]? <;> rfl

/-- An update keeps the identifier. -/
@[simp]
theorem testId_updated (e : Entry) (scope : KeyScope) (found : Option Metadata) :
    (e.updated scope found).testId = e.testId := by
  cases found <;> simp [updated]

/-- An update keeps the unmanaged keys. -/
@[simp]
theorem extra_updated (e : Entry) (scope : KeyScope) (found : Option Metadata) :
    (e.updated scope found).extra = e.extra := by
  cases found <;> simp [updated]

/-- An update keeps the key. -/
@[simp]
theorem key_updated (e : Entry) (scope : KeyScope) (found : Option Metadata) :
    (e.updated scope found).key scope = e.key scope := by
  cases found with
  | none => simp only [updated, entry_orphan, key]
  | some m => simp only [updated, key_align]

/-- Within a file, an update keeps the file. -/
theorem testFile_updated_file (e : Entry) (found : Option Metadata) :
    (e.updated .file found).testFile = e.testFile := by
  cases found with
  | none => simp only [updated, entry_orphan]
  | some m => simp [updated, testFile_align]

/-- After an update an entry is automated exactly if the index has its key. -/
@[simp]
theorem isAutomated_updated (e : Entry) (scope : KeyScope) (found : Option Metadata) :
    (e.updated scope found).isAutomated = found.isSome := by
  cases found <;> simp [updated]

/-- After an update an entry is skipped if the code says so, and if the code does not have its test,
as before. -/
theorem isSkipped_updated (e : Entry) (scope : KeyScope) (found : Option Metadata) :
    (e.updated scope found).isSkipped = (found.map (·.isSkipped)).getD e.isSkipped := by
  cases found with
  | none => simp only [updated, entry_orphan, Option.map_none, Option.getD_none]
  | some m => exact (e.agrees_align scope m).isSkipped

end Entry

end ManifestSync
