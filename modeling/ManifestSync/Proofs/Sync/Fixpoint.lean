import ManifestSync.Proofs.Manifest.Record
import ManifestSync.Proofs.Sync.Exactness

/-!
# A second reconciliation

Once a manifest has been reconciled with an index, a second reconciliation with that index finds
nothing to update, whichever of the two accepts what the manifest lacks. An entry is settled
(`Settled`) if its update leaves it as it is and names no field. An updated entry is settled because
`Entry.align` recognises its own result (`Entry.align_of_agrees`), tags included, and an entry made
of a test of the index is settled because it was copied from there. Since updates change no key, the
keys that one side lacks are those that the first reconciliation has left.
-/

namespace ManifestSync

variable {scope : KeyScope} {index : ScanIndex}

/-- The update of an entry leaves it as it is and names no field. -/
def Settled (scope : KeyScope) (index : ScanIndex) (e : Entry) : Prop :=
  e.revise scope index = ⟨e, []⟩

/-- An entry that agrees with the test under its key is settled. -/
theorem settled_of_agrees {e : Entry} {m : Metadata} (hm : index[e.key scope]? = some m)
    (h : e.Agrees m) (hfile : scope = .global → e.testFile = m.testFile)
    (hauto : e.isAutomated = true) : Settled scope index e := by
  unfold Settled Entry.revise
  rw [hm]
  exact Entry.align_of_agrees h hfile hauto

/-- An updated entry is settled. -/
theorem settled_updated (scope : KeyScope) (index : ScanIndex) (e : Entry) :
    Settled scope index (e.updated scope index[e.key scope]?) := by
  cases hm : index[e.key scope]? with
  | some m =>
    refine settled_of_agrees (m := m) ?_ (e.agrees_align scope m) ?_ (e.isAutomated_align scope m)
    · rw [e.key_updated, hm]
    · rintro rfl
      exact e.testFile_align .global m
  | none =>
    unfold Settled Entry.revise
    rw [e.key_updated, hm]
    exact Entry.orphan_of_not_automated (e.isAutomated_updated scope none)

/-- An entry made of a test of a keyed index is settled. -/
theorem settled_ofMetadata (h : Keyed scope index) {key : TestKey} {m : Metadata}
    (hm : index[key]? = some m) : Settled scope index (Entry.ofMetadata m) := by
  refine settled_of_agrees (m := m) ?_ (Entry.agrees_ofMetadata m) (fun _ => rfl) rfl
  rw [h.key_ofMetadata hm, hm]

/-- All entries are settled after a reconciliation. -/
theorem settled_reconcile (h : Keyed scope index) (old : List Entry) (accept : Bool) :
    ∀ e ∈ (reconcile scope old index accept).1, Settled scope index e := by
  intro e he
  rw [entries_reconcile, List.mem_append, List.mem_map] at he
  rcases he with ⟨e, -, rfl⟩ | he
  · exact settled_updated scope index e
  · cases accept with
    | false => exact absurd he List.not_mem_nil
    | true =>
      obtain ⟨⟨key, m⟩, hp, rfl⟩ := List.mem_map.1 he
      exact settled_ofMetadata h ((mem_unlisted scope old index key m).1 hp).1

/-- The update of a settled entry is the entry. -/
theorem Settled.updated {e : Entry} (h : Settled scope index e) :
    e.updated scope index[e.key scope]? = e := by
  rw [← e.entry_revise, h]

/-- Settled entries stay as they are. -/
theorem map_updated_of_settled {entries : List Entry} (h : ∀ e ∈ entries, Settled scope index e) :
    entries.map (fun e => e.updated scope index[e.key scope]?) = entries :=
  (List.map_congr_left fun e he => (h e he).updated).trans (List.map_id entries)

/-- Settled entries give no updates. -/
theorem updatesOf_of_settled {entries : List Entry} (h : ∀ e ∈ entries, Settled scope index e) :
    updatesOf scope index entries = [] := by
  unfold updatesOf
  rw [List.filterMap_eq_nil_iff]
  intro e he
  rw [h e he]
  rfl

/-! ## Keys after a reconciliation -/

/-- The keys of a manifest after a reconciliation: those that it had, and with `accept` those that
the index has. -/
theorem exists_key_reconcile (h : Keyed scope index) (old : List Entry) (accept : Bool)
    (key : TestKey) :
    (∃ e ∈ (reconcile scope old index accept).1, e.key scope = key) ↔
      (∃ e ∈ old, e.key scope = key) ∨ (accept = true ∧ key ∈ index) := by
  rw [entries_reconcile]
  constructor
  · rintro ⟨e, he, rfl⟩
    rw [List.mem_append, List.mem_map] at he
    rcases he with ⟨e, he, rfl⟩ | he
    · exact .inl ⟨e, he, (e.key_updated scope _).symm⟩
    · cases accept with
      | false => exact absurd he List.not_mem_nil
      | true =>
        obtain ⟨p, hp, rfl⟩ := List.mem_map.1 he
        exact .inr ⟨rfl, (isAutomated_unlisted h old p hp).1 rfl⟩
  · rintro (⟨e, he, rfl⟩ | ⟨rfl, hkey⟩)
    · exact ⟨_, List.mem_append_left _ (List.mem_map_of_mem he), e.key_updated scope _⟩
    · by_cases hold : ∃ e ∈ old, e.key scope = key
      · obtain ⟨e, he, rfl⟩ := hold
        exact ⟨_, List.mem_append_left _ (List.mem_map_of_mem he), e.key_updated scope _⟩
      · obtain ⟨m, hm⟩ := Option.isSome_iff_exists.1 (Std.TreeMap.mem_iff_isSome_getElem?.1 hkey)
        have hp : (key, m) ∈ unlisted scope old index :=
          (mem_unlisted scope old index key m).2 ⟨hm, fun e he heq => hold ⟨e, he, heq⟩⟩
        exact ⟨Entry.ofMetadata m, List.mem_append_right _ (List.mem_map.2 ⟨_, hp, rfl⟩),
          h.key_ofMetadata hm⟩

/-- What a set of keys makes unlisted depends on which keys of the index are in it. -/
theorem missingFrom_congr {known known' : Std.TreeSet TestKey}
    (h : ∀ key, key ∈ index → known.contains key = known'.contains key) :
    missingFrom index known = missingFrom index known' := by
  unfold missingFrom
  refine List.filter_congr fun ⟨key, m⟩ hp => ?_
  have hm : index[key]? = some m := Std.TreeMap.mem_toList_iff_getElem?_eq_some.1 hp
  have hkey : key ∈ index := Std.TreeMap.mem_iff_isSome_getElem?.2 (by rw [hm]; rfl)
  exact congrArg (!·) (h key hkey)

/-- After a reconciliation without `accept` the same tests are unlisted as before. -/
theorem unlisted_reconcile_false (h : Keyed scope index) (old : List Entry) :
    unlisted scope (reconcile scope old index false).1 index = unlisted scope old index := by
  refine missingFrom_congr fun key _ => ?_
  rw [Bool.eq_iff_iff, contains_keysOf, contains_keysOf, exists_key_reconcile h]
  simp only [Bool.false_eq_true, false_and, or_false]

/-- After a reconciliation with `accept` no test is unlisted. -/
theorem unlisted_reconcile_true (h : Keyed scope index) (old : List Entry) :
    unlisted scope (reconcile scope old index true).1 index = [] := by
  rw [List.eq_nil_iff_forall_not_mem]
  rintro ⟨key, m⟩ hp
  obtain ⟨hm, hnew⟩ := (mem_unlisted _ _ _ key m).1 hp
  obtain ⟨e, he, hkey⟩ := (exists_key_reconcile h old true key).2
    (.inr ⟨rfl, Std.TreeMap.mem_iff_isSome_getElem?.2 (by rw [hm]; rfl)⟩)
  exact hnew e he hkey

/-- The orphans of some entries depend on which keys they have that the index lacks. -/
theorem orphansOf_congr {as bs : List Entry}
    (h : ∀ key, key ∉ index → ((∃ e ∈ as, e.key scope = key) ↔ ∃ e ∈ bs, e.key scope = key)) :
    orphansOf scope index as = orphansOf scope index bs := by
  refine Std.TreeSet.equiv_iff_toList_eq.1 (Std.TreeSet.Equiv.of_forall_mem_iff fun key => ?_)
  have ha := Std.TreeSet.mem_toList.symm.trans (mem_orphansOf scope as index key)
  have hb := Std.TreeSet.mem_toList.symm.trans (mem_orphansOf scope bs index key)
  rw [ha, hb, and_congr_left_iff]
  exact h key

/-- The orphans are the same before and after a reconciliation: an added entry has its code. -/
theorem orphansOf_reconcile (h : Keyed scope index) (old : List Entry) (accept : Bool) :
    orphansOf scope index (reconcile scope old index accept).1 = orphansOf scope index old := by
  refine orphansOf_congr fun key hkey => ?_
  rw [exists_key_reconcile h]
  exact or_iff_left fun hacc => hkey hacc.2

/-! ## The second reconciliation -/

attribute [ext] Report

section
variable (h : Keyed scope index) (old : List Entry) (a b : Bool)
include h

/-- A second reconciliation updates nothing. -/
theorem updates_reconcile_reconcile :
    (reconcile scope (reconcile scope old index a).1 index b).2.updates = [] :=
  updatesOf_of_settled (settled_reconcile h old a)

/-- A second reconciliation finds the same orphans. -/
theorem orphans_reconcile_reconcile :
    (reconcile scope (reconcile scope old index a).1 index b).2.orphans =
      (reconcile scope old index a).2.orphans :=
  orphansOf_reconcile h old a

/-- The tests that a reconciliation leaves unlisted are its shadows. -/
theorem keys_unlisted_reconcile :
    (unlisted scope (reconcile scope old index a).1 index).map (·.1) =
      (reconcile scope old index a).2.shadows := by
  rw [shadows_reconcile]
  cases a with
  | false =>
    rw [unlisted_reconcile_false h]
    rfl
  | true =>
    rw [unlisted_reconcile_true h]
    rfl

/-- A second reconciliation reports the shadows of the first again, unless it accepts them. -/
theorem shadows_reconcile_reconcile :
    (reconcile scope (reconcile scope old index a).1 index b).2.shadows =
      if b then [] else (reconcile scope old index a).2.shadows := by
  rw [shadows_reconcile, keys_unlisted_reconcile h]

/-- A second reconciliation promotes the shadows of the first if it accepts them. -/
theorem promoted_reconcile_reconcile :
    (reconcile scope (reconcile scope old index a).1 index b).2.promoted =
      if b then (reconcile scope old index a).2.shadows else [] := by
  rw [promoted_reconcile, keys_unlisted_reconcile h]

/-- A second reconciliation leaves the entries as they are, and with `accept` adds one for each test
that the first has left unlisted. -/
theorem entries_reconcile_reconcile :
    (reconcile scope (reconcile scope old index a).1 index b).1 =
      (reconcile scope old index a).1 ++
        if b then (unlisted scope (reconcile scope old index a).1 index).map fun p =>
          Entry.ofMetadata p.2 else [] := by
  rw [entries_reconcile scope (reconcile scope old index a).1 index b,
    map_updated_of_settled (settled_reconcile h old a)]

/-- A second reconciliation of the same kind gives the same entries and the same report, without
updates and promotions. -/
theorem reconcile_reconcile :
    reconcile scope (reconcile scope old index a).1 index a =
      ((reconcile scope old index a).1,
        { (reconcile scope old index a).2 with updates := [], promoted := [] }) := by
  have hshadows : (reconcile scope (reconcile scope old index a).1 index a).2.shadows =
      (reconcile scope old index a).2.shadows := by
    rw [shadows_reconcile_reconcile h, shadows_reconcile]
    cases a <;> rfl
  have hpromoted :
      (reconcile scope (reconcile scope old index a).1 index a).2.promoted = [] := by
    rw [promoted_reconcile_reconcile h, shadows_reconcile]
    cases a <;> rfl
  have hentries : (reconcile scope (reconcile scope old index a).1 index a).1 =
      (reconcile scope old index a).1 := by
    rw [entries_reconcile_reconcile h]
    cases a with
    | false => exact List.append_nil _
    | true => rw [unlisted_reconcile_true h, if_pos rfl, List.map_nil, List.append_nil]
  refine Prod.ext hentries (Report.ext ?_ hshadows ?_ hpromoted)
  · exact updates_reconcile_reconcile h old a a
  · exact orphans_reconcile_reconcile h old a a

end

/-! ## Unmanaged keys -/

/-- A reconciliation touches no unmanaged key, and adds none. -/
theorem unmanaged_reconcile {old : List Entry} (h : ∀ e ∈ old, e.extra.Unmanaged) (accept : Bool) :
    ∀ e ∈ (reconcile scope old index accept).1, e.extra.Unmanaged := by
  intro e he
  rw [entries_reconcile, List.mem_append, List.mem_map] at he
  rcases he with ⟨e, he, rfl⟩ | he
  · rw [Entry.extra_updated]
    exact h e he
  · cases accept with
    | false => exact absurd he List.not_mem_nil
    | true =>
      obtain ⟨p, -, rfl⟩ := List.mem_map.1 he
      exact Extra.unmanaged_empty

end ManifestSync
