import ManifestSync.Proofs.Sync.Fixpoint

/-!
# What a manifest keeps

A manifest comes to hold the entries that were read from a document, and from there what any number
of reconciliations makes of them (`Held`). `survives_of_held` says that such entries survive being
written and read again: the same list comes back, with every other key and its value.

Two things could get in the way. A record with a key given twice would be refused, and a key among
the other ones that stands for a managed field would be taken for that field. Reading lets no such key
in (`Entry.unmanaged_of_ofRecord`), and no reconciliation adds one (`unmanaged_reconcile`): this is the
invariant of the induction. Under which of its keys a field was given, and whether it was absent or
null, no longer shows in an entry, which is written with every field under its current key.
-/

namespace ManifestSync

open Yaml (Value)

/-- The lists of entries that a manifest comes to hold. -/
inductive Held : List Entry → Prop where
  /-- The entries of a document that is accepted. -/
  | read {origin : String} {document : Value} {entries : List Entry}
    (h : Manifest.ofValue origin document = .ok entries) : Held entries
  /-- The entries after a reconciliation with some scan. -/
  | reconciled {entries : List Entry} (h : Held entries) (scope : KeyScope) (index : ScanIndex)
    (accept : Bool) : Held (reconcile scope entries index accept).1

/-- The entries of a text that is accepted are held. -/
theorem held_of_parse {origin : String} {text : List Char} {entries : List Entry}
    (h : Manifest.parse origin text = .ok entries) : Held entries := by
  unfold Manifest.parse at h
  split at h
  · exact nomatch h
  · exact .read h

/-- A manifest never holds a managed key among the other keys of an entry. -/
theorem Held.unmanaged {entries : List Entry} (h : Held entries) :
    ∀ e ∈ entries, e.extra.Unmanaged := by
  induction h with
  | read h =>
    unfold Manifest.ofValue at h
    split at h
    · exact Manifest.unmanaged_of_readRecords h
    · exact nomatch h
  | reconciled _ scope index accept ih =>
    -- Entries that come from code have no other keys, and the old ones keep theirs.
    exact unmanaged_reconcile ih accept

/-- The record of an entry has no key twice: the managed keys differ, the other keys are sorted, and
none of them is managed. -/
theorem Entry.exists_toRecord_eq (e : Entry) (h : e.extra.Unmanaged) :
    ∃ pairs, e.toRecord = .map pairs ∧ (pairs.map (·.1)).Nodup := by
  refine ⟨_, rfl, ?_⟩
  have hkeys : ((Field.all.map fun field : Field => (Value.string field.name, e.fieldValue field)) ++
      e.extra.pairs.map fun p => (Value.string p.1, p.2)).map (·.1) =
        (Field.all.map Field.name ++ e.extra.pairs.map (·.1)).map Value.string := by
    simp only [List.map_append, List.map_map]
    rfl
  have hmanaged : (Field.all.map Field.name).Nodup := by decide
  have hextra : (e.extra.pairs.map (·.1)).Nodup := by
    refine (List.pairwise_map.2 e.extra.sorted).imp fun {a b} hlt => ?_
    rintro rfl
    exact String.lt_irrefl a hlt
  have hdisjoint : ∀ a ∈ Field.all.map Field.name, ∀ b ∈ e.extra.pairs.map (·.1), a ≠ b := by
    rintro _ ha _ hb rfl
    obtain ⟨field, -, rfl⟩ := List.mem_map.1 ha
    obtain ⟨p, hp, hname⟩ := List.mem_map.1 hb
    have hnone := (h p hp).1
    rw [hname, Field.ofKey?_name] at hnone
    exact nomatch hnone
  have hnames : (Field.all.map Field.name ++ e.extra.pairs.map (·.1)).Nodup :=
    List.nodup_append.2 ⟨hmanaged, hextra, hdisjoint⟩
  rw [hkeys]
  exact List.Pairwise.map Value.string (fun _ _ hne heq => hne (Value.string.inj heq)) hnames

namespace Manifest

/-- Some entries come back when they are written and read. -/
structure Survives (entries : List Entry) : Prop where
  /-- No record has a key twice. -/
  keys : ∀ e ∈ entries, ∃ pairs, e.toRecord = .map pairs ∧ (pairs.map (·.1)).Nodup
  /-- No other key is read as a managed field. -/
  extra : ∀ e ∈ entries, ∀ p ∈ e.extra.pairs, Field.ofKey? p.1 = none
  /-- The document of the entries reads back as the entries. -/
  document : ∀ origin, ofValue origin (toValue entries) = .ok entries
  /-- So does its text, if this denotes the document that it was written from. -/
  text : ReadsBack entries → ∀ origin, parse origin (render entries) = .ok entries

/-- The entries that a manifest comes to hold survive being written and read. -/
theorem survives_of_held {entries : List Entry} (h : Held entries) : Survives entries where
  keys e he := e.exists_toRecord_eq (h.unmanaged e he)
  extra e he p hp := (h.unmanaged e he p hp).1
  document origin := ofValue_toValue origin entries h.unmanaged
  text hback origin := parse_render hback origin h.unmanaged

/-- Two records with older keys, nulls and other keys, reconciled with a scan that has the first test
and a third one, and once more when the code is gone. -/
theorem survives_of_held_olderKeys :
    let text := "- test_id: TC-1\n  type: ~\n  owner: [b, 2.5]\n- testId: TC-2\n  zone: ~\n"
    let index : ScanIndex := (({} : ScanIndex).insert ⟨"", "TC-1"⟩
      (.named "a.spec" "TC-1" "one")).insert ⟨"", "TC-3"⟩ (.named "b.spec" "TC-3" "three")
    ∃ old, parse "tests.yml" text.toList = .ok old ∧
      let entries := (reconcile .global (reconcile .global old index true).1 {} false).1
      Survives entries ∧ parse "tests.yml" (render entries) = .ok entries := by
  intro text index
  have hback : ((parse "tests.yml" text.toList).map fun old => decide (ReadsBack
      (reconcile .global (reconcile .global old index true).1 {} false).1)).toOption =
        some true := by
    decide +kernel
  cases hparse : parse "tests.yml" text.toList with
  | error failure =>
    rw [hparse] at hback
    exact nomatch hback
  | ok old =>
    rw [hparse] at hback
    have hheld := ((held_of_parse hparse).reconciled .global index true).reconciled .global {} false
    have hsurvives := survives_of_held hheld
    exact ⟨old, rfl, hsurvives,
      hsurvives.text (of_decide_eq_true (Option.some.inj hback)) "tests.yml"⟩

end Manifest

end ManifestSync
