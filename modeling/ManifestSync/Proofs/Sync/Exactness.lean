import ManifestSync.Proofs.Sync.Alignment

/-!
# What a reconciliation does, exactly

`Reconciled` says what has become of a manifest and what is reported, for every key scope, every
list of entries and every index. `reconcile_exact` proves it of `reconcile`, for an index that holds
each test under its own key (`Keyed`), as scanning builds it.

The keys that one side lacks are a partition without loss or duplication because an update changes
no key (`Entry.key_updated`): the keys known after the update of the old entries are those known
before it (`keysOf_updated`), so that the filter behind shadows and promotions can be read off the
original manifest. Both lists of keys come out of ordered collections and are therefore strictly
increasing.
-/

namespace ManifestSync

/-- An index holds every test under the key that the scope gives to its file and identifier. -/
def Keyed (scope : KeyScope) (index : ScanIndex) : Prop :=
  ∀ key m, index[key]? = some m → scope.key m.testFile m.testId = key

/-- The order of keys as a relation: one key comes before another. -/
abbrev TestKey.Before (a b : TestKey) : Prop := compare a b = .lt

/-- No key comes before itself. -/
theorem TestKey.Before.ne {a b : TestKey} (h : a.Before b) : a ≠ b := by
  rintro rfl
  exact absurd (h.symm.trans Std.ReflCmp.compare_self) (by decide)

section
variable (scope : KeyScope) (old : List Entry) (index : ScanIndex)

/-! ## Keys -/

/-- A set of keys contains exactly the keys of its entries. -/
theorem contains_keysOf (key : TestKey) :
    (keysOf scope old).contains key = true ↔ ∃ e ∈ old, e.key scope = key := by
  unfold keysOf
  rw [Std.TreeSet.contains_ofList, List.contains_iff_mem, List.mem_map]

/-- The update of some entries leaves the set of their keys as it is. -/
theorem keysOf_updated :
    keysOf scope (old.map fun e => e.updated scope index[e.key scope]?) = keysOf scope old := by
  unfold keysOf
  rw [List.map_map]
  congr 2
  funext e
  exact e.key_updated scope _

/-- The tests of the code that have no entry in a manifest, in key order. -/
def unlisted : List (TestKey × Metadata) := missingFrom index (keysOf scope old)

/-- The unlisted tests are those of the index whose key no entry has. -/
theorem mem_unlisted (key : TestKey) (m : Metadata) :
    (key, m) ∈ unlisted scope old index ↔
      index[key]? = some m ∧ ∀ e ∈ old, e.key scope ≠ key := by
  unfold unlisted missingFrom
  rw [List.mem_filter, Std.TreeMap.mem_toList_iff_getElem?_eq_some, Bool.not_eq_true',
    Bool.eq_false_iff, ne_eq, contains_keysOf, not_exists]
  simp only [not_and, ne_eq]

/-- The keys of the unlisted tests are strictly increasing. -/
theorem pairwise_unlisted : ((unlisted scope old index).map (·.1)).Pairwise TestKey.Before :=
  (Std.TreeMap.ordered_keys_toList.filter _).map _ fun _ _ h => h

/-- A key is that of an unlisted test exactly if the index has it and no entry does. -/
theorem mem_keys_unlisted (key : TestKey) :
    key ∈ (unlisted scope old index).map (·.1) ↔ key ∈ index ∧ ∀ e ∈ old, e.key scope ≠ key := by
  rw [List.mem_map]
  constructor
  · rintro ⟨⟨k, m⟩, h, rfl⟩
    obtain ⟨hm, hold⟩ := (mem_unlisted scope old index k m).1 h
    exact ⟨Std.TreeMap.mem_iff_isSome_getElem?.2 (by rw [hm]; rfl), hold⟩
  · rintro ⟨hkey, hold⟩
    obtain ⟨m, hm⟩ := Option.isSome_iff_exists.1 (Std.TreeMap.mem_iff_isSome_getElem?.1 hkey)
    exact ⟨(key, m), (mem_unlisted scope old index key m).2 ⟨hm, hold⟩, rfl⟩

/-- The orphans are the keys of entries that the index lacks. -/
theorem mem_orphansOf (key : TestKey) :
    key ∈ orphansOf scope index old ↔ (∃ e ∈ old, e.key scope = key) ∧ key ∉ index := by
  unfold orphansOf
  rw [Std.TreeSet.mem_toList, ← Std.TreeSet.contains_iff_mem, contains_keysOf]
  constructor
  · rintro ⟨e, he, rfl⟩
    obtain ⟨he, hindex⟩ := List.mem_filter.1 he
    rw [Bool.not_eq_true', Bool.eq_false_iff, ne_eq, Std.TreeMap.contains_iff_mem] at hindex
    exact ⟨⟨e, he, rfl⟩, hindex⟩
  · rintro ⟨⟨e, he, rfl⟩, hindex⟩
    rw [← Std.TreeMap.contains_iff_mem, ← ne_eq, ← Bool.eq_false_iff, ← Bool.not_eq_true'] at hindex
    exact ⟨e, List.mem_filter.2 ⟨he, hindex⟩, rfl⟩

/-- The orphans are strictly increasing. -/
theorem pairwise_orphansOf : (orphansOf scope index old).Pairwise TestKey.Before :=
  Std.TreeSet.ordered_toList

/-! ## The parts of a reconciliation -/

/-- The entries after a reconciliation: the old ones, updated, and with `accept` one for each
unlisted test. -/
theorem entries_reconcile (accept : Bool) :
    (reconcile scope old index accept).1 =
      old.map (fun e => e.updated scope index[e.key scope]?) ++
        if accept then (unlisted scope old index).map fun p => Entry.ofMetadata p.2 else [] := by
  simp only [reconcile, Entry.entry_revise, keysOf_updated, unlisted]

/-- The shadows of a reconciliation. -/
theorem shadows_reconcile (accept : Bool) :
    (reconcile scope old index accept).2.shadows =
      if accept then [] else (unlisted scope old index).map (·.1) := by
  simp only [reconcile, Entry.entry_revise, keysOf_updated, unlisted]

/-- The promoted keys of a reconciliation. -/
theorem promoted_reconcile (accept : Bool) :
    (reconcile scope old index accept).2.promoted =
      if accept then (unlisted scope old index).map (·.1) else [] := by
  simp only [reconcile, Entry.entry_revise, keysOf_updated, unlisted]

/-- The orphans of a reconciliation. -/
theorem orphans_reconcile (accept : Bool) :
    (reconcile scope old index accept).2.orphans = orphansOf scope index old := rfl

/-- The updates of a reconciliation. -/
theorem updates_reconcile (accept : Bool) :
    (reconcile scope old index accept).2.updates = updatesOf scope index old := rfl

end

/-! ## The whole reconciliation -/

variable {scope : KeyScope} {index : ScanIndex}

/-- The empty index is keyed. -/
theorem keyed_empty (scope : KeyScope) : Keyed scope {} := by
  intro key m h
  rw [Std.TreeMap.getElem?_emptyc] at h
  exact nomatch h

/-- An index stays keyed when a test is put in under its key. -/
theorem Keyed.insert (h : Keyed scope index) {key : TestKey} {m : Metadata}
    (hkey : scope.key m.testFile m.testId = key) : Keyed scope (index.insert key m) := by
  intro k n hn
  rw [Std.TreeMap.getElem?_insert] at hn
  split_ifs at hn with heq
  · obtain rfl := Option.some.inj hn
    rw [hkey, Std.LawfulEqOrd.eq_of_compare heq]
  · exact h k n hn

/-- Under a keyed index, an updated entry whose test is in the code is in the declaring file. -/
theorem Keyed.testFile_align (h : Keyed scope index) {e : Entry} {m : Metadata}
    (hm : index[e.key scope]? = some m) : (e.align scope m).entry.testFile = m.testFile := by
  rw [Entry.testFile_align]
  split_ifs with hscope
  · rfl
  · cases scope
    · exact (congrArg TestKey.file (h _ _ hm)).symm
    · exact absurd rfl hscope

/-- Under a keyed index, the entry made of an unlisted test has its key. -/
theorem Keyed.key_ofMetadata (h : Keyed scope index) {key : TestKey} {m : Metadata}
    (hm : index[key]? = some m) : (Entry.ofMetadata m).key scope = key := h key m hm

/-- What a reconciliation of the entries `old` with an index gives: `old`, updated one by one, and
behind them the entries `added`; and a report in which each key that one side lacks stands once, in
key order. -/
structure Reconciled (scope : KeyScope) (old : List Entry) (index : ScanIndex) (accept : Bool)
    (added : List Entry) (result : List Entry × Report) : Prop where
  /-- The old entries come first, in their order and number, and what becomes of one depends on
  itself and on what the index has for its key alone. -/
  entries : result.1 = old.map (fun e => e.updated scope index[e.key scope]?) ++ added
  /-- An entry whose key is in the index agrees with the code, and is in the declaring file. -/
  aligned : ∀ e ∈ old, ∀ m, index[e.key scope]? = some m →
    (e.updated scope index[e.key scope]?).Agrees m ∧
      (e.updated scope index[e.key scope]?).testFile = m.testFile
  /-- Any other entry changes in nothing but the mark of automation. -/
  unaligned : ∀ e ∈ old, e.key scope ∉ index →
    e.updated scope index[e.key scope]? = { e with isAutomated := false }
  /-- No entry gets another identifier, other unmanaged keys or, within a file, another file. -/
  kept : ∀ e ∈ old,
    (e.updated scope index[e.key scope]?).testId = e.testId ∧
      (e.updated scope index[e.key scope]?).extra = e.extra ∧
      (scope = .file → (e.updated scope index[e.key scope]?).testFile = e.testFile)
  /-- Of all entries afterwards, those are automated whose key is in the index. -/
  automated : ∀ e ∈ result.1, e.isAutomated = true ↔ e.key scope ∈ index
  /-- The orphans are the keys of entries that the index lacks. -/
  orphans : result.2.orphans.Pairwise TestKey.Before ∧
    ∀ key, key ∈ result.2.orphans ↔ (∃ e ∈ old, e.key scope = key) ∧ key ∉ index
  /-- The keys of the index that no old entry has are all shadows, with nothing added, or all
  promoted, with one entry for each in the same order. -/
  missing : ∃ missing : List TestKey, missing.Pairwise TestKey.Before ∧
    (∀ key, key ∈ missing ↔ key ∈ index ∧ ∀ e ∈ old, e.key scope ≠ key) ∧
    (accept = false → result.2.shadows = missing ∧ result.2.promoted = [] ∧ added = []) ∧
    (accept = true → result.2.shadows = [] ∧ result.2.promoted = missing ∧
      added.map (·.key scope) = missing ∧
      added.map some = missing.map fun key => index[key]?.map Entry.ofMetadata)

/-- The entries that a reconciliation has behind the old ones are automated exactly if their keys are
in the index: they are made of tests of the index. -/
theorem isAutomated_unlisted (h : Keyed scope index) (old : List Entry) :
    ∀ p ∈ unlisted scope old index, (Entry.ofMetadata p.2).isAutomated = true ↔
      (Entry.ofMetadata p.2).key scope ∈ index := by
  rintro ⟨key, m⟩ hp
  have hm := ((mem_unlisted scope old index key m).1 hp).1
  have hkey : (Entry.ofMetadata m).key scope ∈ index := by
    rw [h.key_ofMetadata hm]
    exact Std.TreeMap.mem_iff_isSome_getElem?.2 (by rw [hm]; rfl)
  exact ⟨fun _ => hkey, fun _ => rfl⟩

/-- Reconciliation is exact, in either scope, with duplicate keys among the entries or without. -/
theorem reconcile_exact (scope : KeyScope) (old : List Entry) (index : ScanIndex) (accept : Bool)
    (h : Keyed scope index) :
    ∃ added, Reconciled scope old index accept added (reconcile scope old index accept) := by
  refine ⟨if accept then (unlisted scope old index).map fun p => Entry.ofMetadata p.2 else [], ?_⟩
  refine
    { entries := entries_reconcile scope old index accept
      aligned := ?_
      unaligned := ?_
      kept := ?_
      automated := ?_
      orphans := ⟨pairwise_orphansOf scope old index, mem_orphansOf scope old index⟩
      missing := ?_ }
  · intro e _ m hm
    rw [hm]
    exact ⟨e.agrees_align scope m, h.testFile_align hm⟩
  · intro e _ hindex
    rw [Std.TreeMap.getElem?_eq_none hindex]
    exact e.entry_orphan
  · intro e _
    refine ⟨e.testId_updated scope _, e.extra_updated scope _, ?_⟩
    rintro rfl
    exact e.testFile_updated_file _
  · intro e he
    rw [entries_reconcile, List.mem_append, List.mem_map] at he
    rcases he with ⟨e, -, rfl⟩ | he
    · rw [e.isAutomated_updated, e.key_updated, Std.TreeMap.mem_iff_isSome_getElem?]
    · cases accept with
      | false => simp at he
      | true =>
        obtain ⟨p, hp, rfl⟩ := List.mem_map.1 he
        exact isAutomated_unlisted h old p hp
  · refine ⟨(unlisted scope old index).map (·.1), pairwise_unlisted scope old index,
      mem_keys_unlisted scope old index, ?_, ?_⟩
    · rintro rfl
      exact ⟨shadows_reconcile scope old index false, promoted_reconcile scope old index false, rfl⟩
    · rintro rfl
      refine ⟨shadows_reconcile scope old index true, promoted_reconcile scope old index true, ?_, ?_⟩
      · simp only [if_true, List.map_map]
        refine List.map_congr_left fun ⟨key, m⟩ hp => ?_
        exact h.key_ofMetadata ((mem_unlisted scope old index key m).1 hp).1
      · simp only [if_true, List.map_map]
        refine List.map_congr_left fun ⟨key, m⟩ hp => ?_
        simp [((mem_unlisted scope old index key m).1 hp).1]

/-- A test of which only the file, the identifier and the title are known. -/
def Metadata.named (file id title : String) : Metadata :=
  { testId := id, testFile := file, title, bugId := none, priority := none, feature := none,
    tags := none, isSkipped := false, automation := .ui, description := none,
    expectedResult := none }

/-- The reconciliation of a manifest that has one key twice and one test without code, under the
global scope: the file of the first entry is filled in, and the new test is promoted. -/
theorem reconcile_exact_global :
    let index : ScanIndex := (({} : ScanIndex).insert ⟨"", "TC-1"⟩ (.named "a.spec" "TC-1" "one")).insert
      ⟨"", "TC-2"⟩ (.named "b.spec" "TC-2" "two")
    let old : List Entry := [{ testId := "TC-1" }, { testId := "TC-3", isAutomated := true },
      { testId := "TC-1", testFile := "old.spec" }]
    Keyed .global index ∧
      ∃ added, Reconciled .global old index true added (reconcile .global old index true) := by
  intro index old
  have h : Keyed .global index := by
    refine Keyed.insert (Keyed.insert (keyed_empty .global) ?_) ?_
    · rfl
    · rfl
  exact ⟨h, reconcile_exact .global old index true h⟩

end ManifestSync
