import ManifestSync.Proofs.Sync.Exactness

/-!
# The report as a difference

The updates that a reconciliation reports are the difference between the manifest before and after:
`Entry.differences` compares two entries field by field, in the order in which records have their
fields, and `reconcile_diff` says that there is one update for each old entry that has become another
one, with its key and with the fields in which the two differ.

No update looks at the new entry. Each field is written by a `Slot`, which says for itself whether it
has changed its field, so the proof is that every kind of slot says so truthfully (`Slot.Tells`): a
plain field, the tags, which keep an old list that holds the same tags, and the file, which stays
within a file scope. The fields of an update are then those that differ (`changed_revise`), and there
are none exactly if the entry is what it was (`differences_eq_nil_iff`), since an update writes
nothing else.
-/

namespace ManifestSync

/-! ## Fields that differ -/

/-- The fields that an update writes, in the order in which it reports them. -/
def Field.writable : List Field :=
  [.testFile, .title, .bugId, .priority, .feature, .tags, .isSkipped, .automation, .description,
    .expectedResult, .isAutomated]

namespace Entry

/-- Whether two entries have different values of a field. -/
def differsIn (a b : Entry) : Field → Bool
  | .testId => b.testId ≠ a.testId
  | .testFile => b.testFile ≠ a.testFile
  | .title => b.title ≠ a.title
  | .bugId => b.bugId ≠ a.bugId
  | .priority => b.priority ≠ a.priority
  | .feature => b.feature ≠ a.feature
  | .tags => b.tags ≠ a.tags
  | .isSkipped => b.isSkipped ≠ a.isSkipped
  | .automation => b.automation ≠ a.automation
  | .description => b.description ≠ a.description
  | .expectedResult => b.expectedResult ≠ a.expectedResult
  | .isAutomated => b.isAutomated ≠ a.isAutomated

/-- The writable fields in which two entries differ, in order. -/
def differences (a b : Entry) : List Field :=
  Field.writable.filter (a.differsIn b)

/-- No entry differs from itself. -/
theorem differsIn_self (a : Entry) (field : Field) : a.differsIn a field = false := by
  cases field <;> exact decide_eq_false (not_not_intro rfl)

/-- Two entries with the same identifier and the same unmanaged keys differ in no field exactly if
they are the same. -/
theorem differences_eq_nil_iff {a b : Entry} (hid : b.testId = a.testId)
    (hextra : b.extra = a.extra) : a.differences b = [] ↔ b = a := by
  unfold differences
  rw [List.filter_eq_nil_iff]
  simp only [Bool.not_eq_true]
  constructor
  · intro h
    obtain ⟨⟩ := a
    obtain ⟨⟩ := b
    simp only [Field.writable, List.forall_mem_cons, differsIn, decide_eq_false_iff_not, ne_eq,
      Decidable.not_not] at h
    obtain ⟨rfl, rfl, rfl, rfl, rfl, rfl, rfl, rfl, rfl, rfl, rfl, -⟩ := h
    obtain rfl := hid
    obtain rfl := hextra
    rfl
  · rintro rfl field -
    exact b.differsIn_self field

/-- The fields in which two entries differ, one by one. -/
theorem differences_eq_flatMap (a b : Entry) :
    a.differences b =
      Field.writable.flatMap fun field => bif a.differsIn b field then [field] else [] := by
  unfold differences
  generalize Field.writable = fields
  induction fields with
  | nil => rfl
  | cons field fields ih =>
    rw [List.filter_cons, List.flatMap_cons, ih]
    cases a.differsIn b field <;> rfl

end Entry

/-! ## What a slot tells -/

/-- A slot for a field tells that the field has changed exactly if its value is not the old one. -/
def Slot.Tells {α : Type} [DecidableEq α] (field : Field) (old : α) (slot : Slot α) : Prop :=
  slot.changed = bif slot.value ≠ old then [field] else []

namespace Slot

variable {α : Type} [DecidableEq α]

/-- A field that is left as it is tells that it has not changed. -/
theorem tells_keep (field : Field) (old : α) : Tells field old (keep old) := by
  have hsame : decide ((keep old).value ≠ old) = false := decide_eq_false (not_not_intro rfl)
  rw [Tells, hsame]
  rfl

/-- A field with another value tells that it has changed. -/
theorem tells_of_ne (field : Field) {old new : α} (h : new ≠ old) :
    Tells field old ⟨new, [field]⟩ := by
  have hother : decide (new ≠ old) = true := decide_eq_true h
  rw [Tells, hother]
  rfl

/-- A field tells whether it is overwritten with another value. -/
theorem tells_overwrite (field : Field) (old new : α) :
    Tells field old (overwrite field old new) := by
  unfold overwrite
  split_ifs with h
  · exact tells_keep field old
  · exact tells_of_ne field (Ne.symm h)

/-- The tags tell whether they are overwritten: a list that does not hold the same tags is another
list. -/
theorem tells_overwriteTags (old new : Option (List String)) :
    Tells .tags old (overwriteTags old new) := by
  unfold overwriteTags
  split_ifs with h
  · exact tells_keep .tags old
  · refine tells_of_ne .tags ?_
    rintro rfl
    exact h (sameTags_self new)

/-- The file tells whether it is filled in; within a file it stays. -/
theorem tells_fileSlot (scope : KeyScope) (e : Entry) (m : Metadata) :
    Tells .testFile e.testFile (fileSlot scope e m) := by
  cases scope with
  | file => exact tells_keep .testFile e.testFile
  | global => exact tells_overwrite .testFile e.testFile m.testFile

end Slot

/-! ## The fields of an update -/

namespace Entry

/-- An entry that is brought in line with the code has changed in the fields in which it differs from
the old one. -/
theorem changed_align (e : Entry) (scope : KeyScope) (m : Metadata) :
    (e.align scope m).changed = e.differences (e.align scope m).entry := by
  have hfile := Slot.tells_fileSlot scope e m
  have htags := Slot.tells_overwriteTags e.tags m.tags
  have hplain {α : Type} [DecidableEq α] (field : Field) (old new : α) :=
    Slot.tells_overwrite field old new
  unfold Slot.Tells at hfile htags hplain
  rw [differences_eq_flatMap]
  simp only [align, hfile, htags, hplain, Field.writable, List.flatMap_cons, List.flatMap_nil,
    List.append_nil, List.append_assoc, differsIn]

/-- An entry without code has changed in the fields in which it differs from the old one. -/
theorem changed_orphan (e : Entry) : e.orphan.changed = e.differences e.orphan.entry := by
  have hplain := Slot.tells_overwrite .isAutomated e.isAutomated false
  unfold Slot.Tells at hplain
  rw [differences_eq_flatMap]
  simp only [orphan, hplain, Field.writable, List.flatMap_cons, List.flatMap_nil, List.append_nil,
    differsIn, ne_eq, not_true_eq_false, decide_false, cond_false, List.nil_append]

/-- The update of an entry has changed the fields in which the new entry differs from the old one. -/
theorem changed_revise (e : Entry) (scope : KeyScope) (index : ScanIndex) :
    (e.revise scope index).changed = e.differences (e.revise scope index).entry := by
  unfold revise
  cases index[e.key scope]? with
  | none => exact e.changed_orphan
  | some m => exact e.changed_align scope m

/-- An update changes no field exactly if it leaves the entry as it is. -/
theorem changed_revise_eq_nil_iff (e : Entry) (scope : KeyScope) (index : ScanIndex) :
    (e.revise scope index).changed = [] ↔ (e.revise scope index).entry = e := by
  rw [changed_revise]
  refine differences_eq_nil_iff ?_ ?_
  · rw [entry_revise, testId_updated]
  · rw [entry_revise, extra_updated]

end Entry

/-! ## The updates of a reconciliation -/

/-- The report of a reconciliation of the entries `old` is the difference between them and what has
become of them. -/
structure IsDiff (scope : KeyScope) (old : List Entry) (result : List Entry × Report) : Prop where
  /-- Every old entry has a new one at its place. -/
  length_le : old.length ≤ result.1.length
  /-- Both have the same key, identifier and unmanaged keys. -/
  kept : ∀ p ∈ old.zip result.1,
    p.2.key scope = p.1.key scope ∧ p.2.testId = p.1.testId ∧ p.2.extra = p.1.extra
  /-- The updates are, in order, one for each entry that is not the old one, with the key of the old
  entry and the fields in which they differ. -/
  updates : open scoped Classical in
    result.2.updates = ((old.zip result.1).filter fun p => p.2 ≠ p.1).map fun p =>
      ⟨p.1.key scope, p.1.differences p.2⟩

/-- The old entries of a reconciliation, each with what has become of it. -/
theorem zip_reconcile (scope : KeyScope) (old : List Entry) (index : ScanIndex) (accept : Bool) :
    old.zip (reconcile scope old index accept).1 =
      old.map fun e => (e, (e.revise scope index).entry) := by
  have hsplit : ∀ added, old.zip (old.map (fun e => (e.revise scope index).entry) ++ added) =
      old.map fun e => (e, (e.revise scope index).entry) := by
    intro added
    induction old with
    | nil => rfl
    | cons e old ih => rw [List.map_cons, List.cons_append, List.zip_cons_cons, ih, List.map_cons]
  exact hsplit _

/-- The updates of a reconciliation are the difference between the manifest before and after, in
either scope, with duplicate keys among the entries or without. -/
theorem reconcile_diff (scope : KeyScope) (old : List Entry) (index : ScanIndex) (accept : Bool) :
    IsDiff scope old (reconcile scope old index accept) where
  length_le := by
    rw [entries_reconcile, List.length_append, List.length_map]
    exact Nat.le_add_right _ _
  kept := by
    intro p hp
    rw [zip_reconcile] at hp
    obtain ⟨e, -, rfl⟩ := List.mem_map.1 hp
    simp only [Entry.entry_revise, Entry.key_updated, Entry.testId_updated, Entry.extra_updated,
      and_self]
  updates := by
    classical
    rw [zip_reconcile, updates_reconcile, List.filter_map, List.map_map, updatesOf]
    induction old with
    | nil => rfl
    | cons e old ih =>
      rw [List.filterMap_cons, List.filter_cons, ih]
      by_cases hsame : (e.revise scope index).entry = e
      · have hnil := (e.changed_revise_eq_nil_iff scope index).2 hsame
        simp [hnil, hsame]
      · have hne : (e.revise scope index).changed ≠ [] :=
          fun h => hsame ((e.changed_revise_eq_nil_iff scope index).1 h)
        rw [e.changed_revise scope index] at hne
        simp [hne, hsame, e.changed_revise scope index]

end ManifestSync
