import ManifestSync.Proofs.Sync.Fixpoint

/-!
# One reconciliation after another

A manifest is reconciled again and again, each time with what the sources have become. `history`
lists its states over such a run, and `continues_and_nodup_history` says what all of them have in
common: every state is continued by each later one, position by position (`Continues`), and no key
ever comes to stand twice. Both are shown of one reconciliation first and carried over the run by
induction. An entry keeps its key because updates do (`Entry.key_updated`), and a new one has the key
that no entry had before (`keys_added`).

With one and the same index, a second reconciliation does no more than accept what the first has
left: `reconcile_twice` puts the laws of `Fixpoint` together.
-/

namespace ManifestSync

variable {scope : KeyScope} {index : ScanIndex}

/-! ## One reconciliation -/

/-- What no reconciliation changes in an entry. -/
structure Entry.Core where
  testId : String
  /-- The key under the scope of the manifest. -/
  key : TestKey
  /-- The unmanaged keys. -/
  extra : Extra

/-- The part of an entry that no reconciliation changes. -/
def Entry.core (e : Entry) (scope : KeyScope) : Core := ⟨e.testId, e.key scope, e.extra⟩

/-- An update leaves the core of an entry as it is. -/
@[simp]
theorem Entry.core_updated (e : Entry) (scope : KeyScope) (found : Option Metadata) :
    (e.updated scope found).core scope = e.core scope := by
  simp only [core, testId_updated, key_updated, extra_updated]

/-- One manifest is continued by another: this holds the entries of the first, position by position
with the same cores, and perhaps more behind them. -/
def Continues (scope : KeyScope) (before after : List Entry) : Prop :=
  before.map (·.core scope) <+: after.map (·.core scope)

/-- A manifest is continued by what a reconciliation makes of it. -/
theorem continues_reconcile (scope : KeyScope) (old : List Entry) (index : ScanIndex)
    (accept : Bool) : Continues scope old (reconcile scope old index accept).1 := by
  have hcores : (old.map fun e => e.updated scope index[e.key scope]?).map (·.core scope) =
      old.map (·.core scope) := by
    rw [List.map_map]
    exact List.map_congr_left fun e _ => e.core_updated scope _
  unfold Continues
  rw [entries_reconcile, List.map_append, hcores]
  exact List.prefix_append _ _

/-- The entries that are made of unlisted tests have the keys of these. -/
theorem keys_added (h : Keyed scope index) (old : List Entry) :
    ((unlisted scope old index).map fun p => Entry.ofMetadata p.2).map (·.key scope) =
      (unlisted scope old index).map (·.1) := by
  rw [List.map_map]
  exact List.map_congr_left fun ⟨key, m⟩ hp =>
    h.key_ofMetadata ((mem_unlisted scope old index key m).1 hp).1

/-- The unlisted tests have distinct keys. -/
theorem nodup_keys_unlisted (scope : KeyScope) (old : List Entry) (index : ScanIndex) :
    ((unlisted scope old index).map (·.1)).Nodup :=
  (pairwise_unlisted scope old index).imp TestKey.Before.ne

/-- Distinct keys stay distinct in a reconciliation. -/
theorem nodup_keys_reconcile (h : Keyed scope index) {old : List Entry}
    (hold : (old.map (·.key scope)).Nodup) (accept : Bool) :
    ((reconcile scope old index accept).1.map (·.key scope)).Nodup := by
  have hkeys : (old.map fun e => e.updated scope index[e.key scope]?).map (·.key scope) =
      old.map (·.key scope) := by
    rw [List.map_map]
    exact List.map_congr_left fun e _ => e.key_updated scope _
  rw [entries_reconcile, List.map_append, hkeys]
  cases accept with
  | false => simpa using hold
  | true =>
    rw [if_pos rfl, keys_added h]
    refine List.nodup_append.2 ⟨hold, nodup_keys_unlisted scope old index, ?_⟩
    -- An unlisted key is one that no entry has.
    rintro a ha b hb rfl
    obtain ⟨e, he, rfl⟩ := List.mem_map.1 ha
    exact ((mem_keys_unlisted scope old index _).1 hb).2 e he rfl

/-! ## A run of reconciliations -/

/-- One reconciliation of a run: what the scan has found, and whether shadows are accepted. -/
structure Pass where
  index : ScanIndex
  accept : Bool

/-- The entries after one reconciliation. -/
def Pass.entries (scope : KeyScope) (old : List Entry) (pass : Pass) : List Entry :=
  (reconcile scope old pass.index pass.accept).1

/-- The states of a manifest over a run of reconciliations, from the first to the last. -/
def history (scope : KeyScope) (old : List Entry) (passes : List Pass) : List (List Entry) :=
  passes.scanl (Pass.entries scope) old

/-- Every state of a run continues the first one. -/
theorem continues_of_mem_history {old : List Entry} {passes : List Pass} :
    ∀ entries ∈ history scope old passes, Continues scope old entries := by
  induction passes generalizing old with
  | nil =>
    intro entries hentries
    obtain rfl := List.mem_singleton.1 hentries
    exact List.prefix_refl _
  | cons pass passes ih =>
    intro entries hentries
    unfold history at hentries
    rw [List.scanl_cons] at hentries
    rcases List.mem_cons.1 hentries with rfl | hentries
    · exact List.prefix_refl _
    · exact (continues_reconcile scope old pass.index pass.accept).trans (ih entries hentries)

/-- Every state of a run is continued by each later one. -/
theorem pairwise_history (scope : KeyScope) (old : List Entry) (passes : List Pass) :
    (history scope old passes).Pairwise (Continues scope) := by
  induction passes generalizing old with
  | nil => exact List.pairwise_singleton _ _
  | cons pass passes ih =>
    unfold history
    rw [List.scanl_cons, List.pairwise_cons]
    refine ⟨fun entries hentries => ?_, ih _⟩
    exact (continues_reconcile scope old pass.index pass.accept).trans
      (continues_of_mem_history entries hentries)

/-- Keys that are distinct at first are distinct in every state of a run. -/
theorem nodup_of_mem_history {old : List Entry} {passes : List Pass}
    (h : ∀ pass ∈ passes, Keyed scope pass.index) (hold : (old.map (·.key scope)).Nodup) :
    ∀ entries ∈ history scope old passes, (entries.map (·.key scope)).Nodup := by
  induction passes generalizing old with
  | nil =>
    intro entries hentries
    obtain rfl := List.mem_singleton.1 hentries
    exact hold
  | cons pass passes ih =>
    intro entries hentries
    unfold history at hentries
    rw [List.scanl_cons] at hentries
    rcases List.mem_cons.1 hentries with rfl | hentries
    · exact hold
    · -- The rest of the run starts from the entries after the first pass.
      have hpass := nodup_keys_reconcile (h pass List.mem_cons_self) hold pass.accept
      exact ih (fun p hp => h p (List.mem_cons_of_mem _ hp)) hpass entries hentries

/-- Over any run of reconciliations the manifest loses nothing, and stays without duplicates if it
was so. -/
theorem continues_and_nodup_history (scope : KeyScope) (old : List Entry) (passes : List Pass)
    (h : ∀ pass ∈ passes, Keyed scope pass.index) :
    (history scope old passes).Pairwise (Continues scope) ∧
      ((old.map (·.key scope)).Nodup →
        ∀ entries ∈ history scope old passes, (entries.map (·.key scope)).Nodup) :=
  ⟨pairwise_history scope old passes, nodup_of_mem_history h⟩

/-- A test is promoted, disappears from the code and comes back in another file, under the global
scope. -/
theorem continues_and_nodup_history_reappearing :
    let here : ScanIndex := ({} : ScanIndex).insert ⟨"", "TC-1"⟩ (.named "a.spec" "TC-1" "one")
    let there : ScanIndex := ({} : ScanIndex).insert ⟨"", "TC-1"⟩ (.named "b.spec" "TC-1" "one")
    let passes : List Pass := [⟨here, true⟩, ⟨{}, true⟩, ⟨there, true⟩]
    let old : List Entry := [{ testId := "TC-2" }]
    (∀ pass ∈ passes, Keyed .global pass.index) ∧ (old.map (·.key .global)).Nodup ∧
      (history .global old passes).Pairwise (Continues .global) ∧
      ∀ entries ∈ history .global old passes, (entries.map (·.key .global)).Nodup := by
  intro here there passes old
  have h : ∀ pass ∈ passes, Keyed .global pass.index := by
    intro pass hpass
    simp only [passes, List.mem_cons, List.not_mem_nil, or_false] at hpass
    rcases hpass with rfl | rfl | rfl
    · exact (keyed_empty .global).insert rfl
    · exact keyed_empty .global
    · exact (keyed_empty .global).insert rfl
  have hold : (old.map (·.key .global)).Nodup := by decide
  obtain ⟨hcontinues, hnodup⟩ := continues_and_nodup_history .global old passes h
  exact ⟨h, hold, hcontinues, hnodup hold⟩

/-! ## Two reconciliations with one index -/

/-- What a second reconciliation with the same index gives, after a first one with the flag `a`; the
second one has the flag `b`. -/
structure Repeated (scope : KeyScope) (old : List Entry) (index : ScanIndex) (a b : Bool)
    (first second : List Entry × Report) : Prop where
  /-- Nothing is left to update. -/
  updates : second.2.updates = []
  /-- The orphans are the same. -/
  orphans : second.2.orphans = first.2.orphans
  /-- The shadows are promoted if the flag of the second reconciliation says so. -/
  promoted : second.2.promoted = if b then first.2.shadows else []
  /-- Otherwise they are reported again. -/
  shadows : second.2.shadows = if b then [] else first.2.shadows
  /-- The entries of the first stay as they are, and one is added for each promoted key. -/
  entries : ∃ added, second.1 = first.1 ++ added ∧ added.map (·.key scope) = second.2.promoted
  /-- It is all the same whether shadows are accepted at once or later. -/
  atOnce : second.1 = (reconcile scope old index (a || b)).1

/-- One reconciliation brings a manifest in line, and shadows accepted later are shadows accepted at
once. -/
theorem reconcile_twice (scope : KeyScope) (old : List Entry) (index : ScanIndex) (a b : Bool)
    (h : Keyed scope index) :
    Repeated scope old index a b (reconcile scope old index a)
      (reconcile scope (reconcile scope old index a).1 index b) := by
  refine
    { updates := updates_reconcile_reconcile h old a b
      orphans := orphans_reconcile_reconcile h old a b
      promoted := promoted_reconcile_reconcile h old a b
      shadows := shadows_reconcile_reconcile h old a b
      entries := ⟨_, entries_reconcile_reconcile h old a b, ?_⟩
      atOnce := ?_ }
  · rw [promoted_reconcile]
    cases b with
    | false => rfl
    | true => exact keys_added h _
  · rw [entries_reconcile_reconcile h]
    cases a with
    | true =>
      -- Nothing is left to accept.
      rw [unlisted_reconcile_true h, List.map_nil, ite_self, List.append_nil, Bool.true_or]
    | false =>
      rw [unlisted_reconcile_false h, entries_reconcile, entries_reconcile, Bool.false_or,
        if_neg Bool.false_ne_true, List.append_nil]

/-- A manifest with one test of two is first brought in line without the other, which is then
accepted. -/
theorem reconcile_twice_later :
    let index : ScanIndex := (({} : ScanIndex).insert ⟨"a.spec", "TC-1"⟩
      (.named "a.spec" "TC-1" "one")).insert ⟨"b.spec", "TC-1"⟩ (.named "b.spec" "TC-1" "two")
    let old : List Entry := [{ testId := "TC-1", testFile := "a.spec" }]
    Keyed .file index ∧
      Repeated .file old index false true (reconcile .file old index false)
        (reconcile .file (reconcile .file old index false).1 index true) := by
  intro index old
  have h : Keyed .file index := by
    refine Keyed.insert (Keyed.insert (keyed_empty .file) ?_) ?_
    · rfl
    · rfl
  exact ⟨h, reconcile_twice .file old index false true h⟩

end ManifestSync
