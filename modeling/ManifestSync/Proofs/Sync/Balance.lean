import Mathlib.Data.List.Nodup
import ManifestSync.Proofs.Sync.History
import ManifestSync.Sync.Statistics

/-!
# Statistics that balance

The statistics of a run are counted over the entries after the reconciliation, and the shadows and
orphans are lists of keys. `reconcile_balanced` says how the numbers add up when the entries have
distinct keys: every entry is the place of a test that the index has, or is an orphan.

With distinct keys the entries whose tests the index has are a permutation of those tests of the
index that are no shadows (`perm_matched`), and the other entries one of the orphans
(`perm_orphaned`). The updates keep the keys, so every count over the new entries is one over these
tests plus one over the old entries of the orphans (`countP_updated`); accepted shadows come on top of
the first (`countP_settled`).
-/

namespace ManifestSync

section
variable (scope : KeyScope) (old : List Entry) (index : ScanIndex)

/-- What the index has for the keys of some entries, with these keys. -/
def matched : List (TestKey × Metadata) :=
  old.filterMap fun e => index[e.key scope]?.map (e.key scope, ·)

/-- The entries whose tests are not in the code. -/
def orphaned : List Entry :=
  old.filter fun e => !index.contains (e.key scope)

/-- The tests of the index whose keys are not among the shadows of a reconciliation. -/
def settled (accept : Bool) : List (TestKey × Metadata) :=
  index.toList.filter fun p => p.1 ∉ (reconcile scope old index accept).2.shadows

/-- Whether the entry of a key says that its test is skipped. -/
def isSkippedAt (key : TestKey) : Bool :=
  (old.find? (·.key scope = key)).any (·.isSkipped)

/-! ## Entries and keys -/

/-- A test is matched if the index has it for the key of an entry. -/
theorem mem_matched (key : TestKey) (m : Metadata) :
    (key, m) ∈ matched scope old index ↔ index[key]? = some m ∧ ∃ e ∈ old, e.key scope = key := by
  unfold matched
  rw [List.mem_filterMap]
  constructor
  · rintro ⟨e, he, hmatch⟩
    obtain ⟨m', hm, hpair⟩ := Option.map_eq_some_iff.1 hmatch
    obtain ⟨rfl, rfl⟩ := Prod.mk.inj hpair
    exact ⟨hm, e, he, rfl⟩
  · rintro ⟨hm, e, he, rfl⟩
    exact ⟨e, he, by rw [hm, Option.map_some]⟩

/-- An index has no test twice. -/
theorem nodup_toList : index.toList.Nodup := by
  have hkeys : index.toList.Pairwise fun p q => p.1.Before q.1 := Std.TreeMap.ordered_keys_toList
  refine hkeys.imp fun {p q} hbefore heq => ?_
  exact hbefore.ne (congrArg Prod.fst heq)

/-- A matched test stands under the key of its entry. -/
theorem map_fst_matched :
    (matched scope old index).map (·.1) =
      (old.map (·.key scope)).filter fun key => index.contains key := by
  unfold matched
  induction old with
  | nil => rfl
  | cons e old ih =>
    rw [List.filterMap_cons, List.map_cons, List.filter_cons, ← ih,
      Std.TreeMap.contains_eq_isSome_getElem?]
    cases index[e.key scope]? <;> rfl

end

variable {scope : KeyScope} {old : List Entry} (index : ScanIndex)

/-- With distinct keys, the matched tests are those of the index that have an entry. -/
theorem perm_matched (h : (old.map (·.key scope)).Nodup) :
    (matched scope old index).Perm
      (index.toList.filter fun p => (keysOf scope old).contains p.1) := by
  have hnodup : (matched scope old index).Nodup := by
    refine List.Nodup.of_map (·.1) ?_
    rw [map_fst_matched]
    exact h.filter _
  refine (List.perm_ext_iff_of_nodup hnodup ((nodup_toList index).filter _)).2 fun ⟨key, m⟩ => ?_
  rw [mem_matched, List.mem_filter, Std.TreeMap.mem_toList_iff_getElem?_eq_some, contains_keysOf]

/-- With distinct keys, the orphans are the keys of the entries whose tests are not in the code. -/
theorem perm_orphaned (h : (old.map (·.key scope)).Nodup) :
    ((orphaned scope old index).map (·.key scope)).Perm (orphansOf scope index old) := by
  have hnodup : ((orphaned scope old index).map (·.key scope)).Nodup :=
    h.sublist (List.filter_sublist.map _)
  have horphans : (orphansOf scope index old).Nodup :=
    (pairwise_orphansOf scope old index).imp TestKey.Before.ne
  refine (List.perm_ext_iff_of_nodup hnodup horphans).2 fun key => ?_
  unfold orphansOf orphaned
  rw [Std.TreeSet.mem_toList, ← Std.TreeSet.contains_iff_mem, contains_keysOf, List.mem_map]

/-- With distinct keys, the entry of a key is the one that has it. -/
theorem isSkippedAt_key (h : (old.map (·.key scope)).Nodup) {e : Entry} (he : e ∈ old) :
    isSkippedAt scope old (e.key scope) = e.isSkipped := by
  have hfind : old.find? (·.key scope = e.key scope) = some e := by
    induction old with
    | nil => exact absurd he List.not_mem_nil
    | cons e' old ih =>
      obtain ⟨hfirst, hrest⟩ := List.nodup_cons.1 h
      rcases List.mem_cons.1 he with rfl | he
      · exact List.find?_cons_of_pos (by simp)
      · have hne : e'.key scope ≠ e.key scope := fun heq =>
          hfirst (List.mem_map.2 ⟨e, he, heq.symm⟩)
        rw [List.find?_cons_of_neg (by simpa using hne), ih hrest he]
  rw [isSkippedAt, hfind]
  rfl

/-! ## Counting -/

/-- A count over the updated entries is one over the matched tests and one over the entries without
code. A matched entry is automated, and skipped as its test is; any other one is not automated, and
skipped if it was. -/
theorem countP_updated (p : Bool → Bool → Bool) :
    (old.map fun e => e.updated scope index[e.key scope]?).countP
        (fun e => p e.isAutomated e.isSkipped) =
      (matched scope old index).countP (fun q => p true q.2.isSkipped) +
        (orphaned scope old index).countP (fun e => p false e.isSkipped) := by
  unfold matched orphaned
  induction old with
  | nil => rfl
  | cons e old ih =>
    rw [List.map_cons, List.countP_cons, ih, List.filterMap_cons, List.filter_cons,
      Std.TreeMap.contains_eq_isSome_getElem?, e.isAutomated_updated, e.isSkipped_updated]
    cases index[e.key scope]? with
    | none =>
      simp only [Option.map_none, Option.getD_none, Option.isSome_none, Bool.not_false, if_true,
        List.countP_cons]
      omega
    | some m =>
      simp only [Option.map_some, Option.getD_some, Option.isSome_some, Bool.not_true,
        Bool.false_eq_true, if_false, List.countP_cons]
      omega

/-- Behind the updated entries stands one for each accepted shadow; it is automated, and skipped as
its test is. -/
theorem countP_reconcile (accept : Bool) (p : Bool → Bool → Bool) :
    (reconcile scope old index accept).1.countP (fun e => p e.isAutomated e.isSkipped) =
      (matched scope old index).countP (fun q => p true q.2.isSkipped) +
        (orphaned scope old index).countP (fun e => p false e.isSkipped) +
        (if accept then (unlisted scope old index).countP fun q => p true q.2.isSkipped else 0) := by
  rw [entries_reconcile, List.countP_append, countP_updated]
  cases accept with
  | false => rfl
  | true => rw [if_pos rfl, if_pos rfl, List.countP_map]; rfl

/-- With distinct keys, a count over the tests that are no shadows is one over the matched tests and
one over the accepted shadows. -/
theorem countP_settled (h : (old.map (·.key scope)).Nodup) (accept : Bool) (p : Metadata → Bool) :
    (settled scope old index accept).countP (fun q => p q.2) =
      (matched scope old index).countP (fun q => p q.2) +
        if accept then (unlisted scope old index).countP fun q => p q.2 else 0 := by
  unfold settled
  rw [shadows_reconcile, (perm_matched index h).countP_eq]
  cases accept with
  | false =>
    -- A test is unlisted exactly if its key is that of an unlisted test.
    have hlisted : ∀ q ∈ index.toList,
        decide (q.1 ∉ (unlisted scope old index).map (·.1)) = (keysOf scope old).contains q.1 := by
      intro q hq
      have hkey : q.1 ∈ index := Std.TreeMap.mem_iff_isSome_getElem?.2 (by
        rw [Std.TreeMap.mem_toList_iff_getElem?_eq_some.1 hq]; rfl)
      rw [Bool.eq_iff_iff, decide_eq_true_iff, mem_keys_unlisted, contains_keysOf]
      simp [hkey]
    simp only [Bool.false_eq_true, if_false, Nat.add_zero]
    rw [List.filter_congr hlisted]
  | true =>
    simp only [if_true, List.not_mem_nil, not_false_eq_true, decide_true, List.filter_true]
    exact List.countP_eq_countP_filter_add ..

/-- Every old entry is matched or without code. -/
theorem length_eq_matched_add_orphaned :
    old.length = (matched scope old index).length + (orphaned scope old index).length := by
  have hcount : (old.map fun e => e.updated scope index[e.key scope]?).countP (fun _ => true) =
      (matched scope old index).countP (fun _ => true) +
        (orphaned scope old index).countP (fun _ => true) :=
    countP_updated index fun _ _ => true
  simpa only [List.countP_true, List.length_map] using hcount

/-- With distinct keys, every test of the index is matched or unlisted. -/
theorem size_eq_matched_add_unlisted (h : (old.map (·.key scope)).Nodup) :
    index.size = (matched scope old index).length + (unlisted scope old index).length := by
  rw [(perm_matched index h).length_eq, ← Std.TreeMap.length_toList]
  exact List.length_eq_length_filter_add _

/-- With distinct keys, the skipped orphans are the skipped entries without code. -/
theorem countP_orphans (h : (old.map (·.key scope)).Nodup) :
    (orphansOf scope index old).countP (isSkippedAt scope old) =
      (orphaned scope old index).countP (·.isSkipped) := by
  rw [← (perm_orphaned index h).countP_eq, List.countP_map]
  refine List.countP_congr fun e he => ?_
  rw [Function.comp_apply, isSkippedAt_key h (List.mem_filter.1 he).1]

/-- How many entries, promoted keys and shadows there are after a reconciliation. -/
theorem lengths_reconcile (accept : Bool) :
    (reconcile scope old index accept).1.length =
        old.length + (reconcile scope old index accept).2.promoted.length ∧
      (reconcile scope old index accept).2.promoted.length =
        (if accept then (unlisted scope old index).length else 0) ∧
      (reconcile scope old index accept).2.promoted.length +
        (reconcile scope old index accept).2.shadows.length = (unlisted scope old index).length := by
  rw [entries_reconcile, promoted_reconcile, shadows_reconcile]
  cases accept <;> simp

/-! ## The balance -/

/-- How the statistics of a reconciliation of the entries `old` with an index account for every entry
and every test. -/
structure Balanced (scope : KeyScope) (old : List Entry) (index : ScanIndex) (accept : Bool)
    (stats : Statistics) : Prop where
  /-- The entries are the old ones and the promoted ones. -/
  total : stats.totalManifested =
    old.length + (reconcile scope old index accept).2.promoted.length
  /-- They are the tests of the index that are no shadows, and the orphans. -/
  sides : stats.shadowCount ≤ index.size ∧
    stats.totalManifested = index.size - stats.shadowCount + stats.orphanCount
  /-- Automated are the tests that are no shadows and not skipped. -/
  automated : stats.automated =
    (settled scope old index accept).countP fun p => !p.2.isSkipped
  /-- Manual are the tests that are no shadows and skipped, and the orphans whose entry says that it
  is skipped. -/
  manual : stats.manual = (settled scope old index accept).countP (fun p => p.2.isSkipped) +
    (reconcile scope old index accept).2.orphans.countP (isSkippedAt scope old)
  /-- An entry is automated, manual or an orphan that is not skipped. -/
  whole : stats.totalManifested = stats.automated + stats.manual +
    (reconcile scope old index accept).2.orphans.countP fun key => !isSkippedAt scope old key

/-- With distinct keys the statistics of a reconciliation balance, in either scope. -/
theorem reconcile_balanced (accept : Bool) (timestamp : String)
    (h : (old.map (·.key scope)).Nodup) :
    Balanced scope old index accept (Statistics.compute (reconcile scope old index accept).1
      (reconcile scope old index accept).2 timestamp) := by
  have hold : old.length = (matched scope old index).length + (orphaned scope old index).length :=
    length_eq_matched_add_orphaned index
  have hindex := size_eq_matched_add_unlisted index h
  have horphans := (perm_orphaned index h).length_eq
  rw [List.length_map] at horphans
  obtain ⟨htotal, hpromoted, hmissing⟩ :
      (reconcile scope old index accept).1.length =
        old.length + (reconcile scope old index accept).2.promoted.length ∧ _ ∧ _ :=
    lengths_reconcile index accept
  -- An entry without code is not automated, whatever it was.
  have hautomated : (reconcile scope old index accept).1.countP
      (fun e => e.isAutomated && !e.isSkipped) =
        (settled scope old index accept).countP fun q => !q.2.isSkipped := by
    rw [countP_reconcile index accept fun a s => a && !s,
      countP_settled index h accept (!·.isSkipped)]
    simp
  have hmanual : (reconcile scope old index accept).1.countP (·.isSkipped) =
      (settled scope old index accept).countP (fun q => q.2.isSkipped) +
        (orphansOf scope index old).countP (isSkippedAt scope old) := by
    rw [countP_reconcile index accept fun _ s => s, countP_settled index h accept (·.isSkipped),
      countP_orphans index h]
    omega
  refine
    { total := htotal
      sides := ?_
      automated := hautomated
      manual := hmanual
      whole := ?_ }
  · simp only [Statistics.compute, orphans_reconcile]
    omega
  · -- Both the settled tests and the orphans are skipped or not.
    have hsettled := countP_settled index h accept fun _ => true
    simp only [List.countP_true] at hsettled
    have htests := List.length_eq_countP_add_countP (fun q : TestKey × Metadata => q.2.isSkipped)
      (l := settled scope old index accept)
    have hkeys := List.length_eq_countP_add_countP (isSkippedAt scope old)
      (l := orphansOf scope index old)
    simp only [Bool.not_eq_true, Bool.decide_eq_false] at htests hkeys
    simp only [Statistics.compute, orphans_reconcile, hautomated, hmanual]
    omega

/-- The statistics of a manifest with a skipped orphan and a code base with one test more balance. -/
theorem reconcile_balanced_orphan :
    let index : ScanIndex := (({} : ScanIndex).insert ⟨"a.spec", "TC-1"⟩
      (.named "a.spec" "TC-1" "one")).insert ⟨"b.spec", "TC-1"⟩ (.named "b.spec" "TC-1" "two")
    let old : List Entry := [{ testId := "TC-1", testFile := "a.spec" },
      { testId := "TC-3", testFile := "a.spec", isSkipped := true }]
    let result := reconcile .file old index false
    (old.map (·.key .file)).Nodup ∧
      Balanced .file old index false (Statistics.compute result.1 result.2 "") := by
  intro index old result
  have h : (old.map (·.key .file)).Nodup := by decide
  exact ⟨h, reconcile_balanced index false "" h⟩

end ManifestSync
