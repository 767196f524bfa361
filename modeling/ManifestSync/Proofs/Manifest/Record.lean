import ManifestSync.Manifest.Document
import ManifestSync.Proofs.Steps
import ManifestSync.Proofs.Yaml.Equality

/-!
# Records that are read back

The record of an entry reads back as the entry (`Entry.ofRecord_toRecord`), provided that its other
keys are none of the managed ones and that no tag stands among their values (`Extra.Unmanaged`).
Every entry that has been read from a manifest is of that kind, since reading refuses the rest.

The managed fields fill a draft one after the other, and each is given once; the other keys come in
the order in which they are kept, so that each insertion goes to the end.
-/

namespace ManifestSync

open Yaml (Value)

/-! ## Other keys -/

/-- No key is one of a managed field, and no value has a tag in it. -/
def Extra.Unmanaged (extra : Extra) : Prop :=
  ∀ p ∈ extra.pairs, Field.ofKey? p.1 = none ∧ p.2.hasTag = false

/-- Where there are no other keys, none is managed. -/
theorem Extra.unmanaged_empty : Extra.empty.Unmanaged := List.forall_mem_nil _

/-- A key that is none of a managed field may be added. -/
theorem Extra.Unmanaged.insert {extra : Extra} (h : extra.Unmanaged) {key : String} {v : Value}
    (hkey : Field.ofKey? key = none) (hv : v.hasTag = false) : (extra.insert key v).Unmanaged := by
  intro p hp
  rcases mem_insertSorted hp with rfl | hp
  · exact ⟨hkey, hv⟩
  · exact h p hp

/-- A key above all others goes to the end. -/
theorem insertSorted_of_lt {key : String} {v : Value} {pairs : List (String × Value)}
    (h : ∀ p ∈ pairs, p.1 < key) : insertSorted key v pairs = pairs ++ [(key, v)] := by
  induction pairs with
  | nil => rfl
  | cons p pairs ih =>
    have hp : p.1 < key := h p List.mem_cons_self
    have hnot : ¬ key < p.1 := String.lt_asymm hp
    rw [insertSorted, if_neg hnot, if_pos hp, ih fun q hq => h q (List.mem_cons_of_mem p hq)]
    rfl

/-- Pairs that are sorted by key, all of them above those already there, go to the end as they are. -/
theorem pairs_foldl_insert (pairs : List (String × Value)) (extra : Extra)
    (hsorted : (extra.pairs ++ pairs).Pairwise (·.1 < ·.1)) :
    (pairs.foldl (fun extra p => extra.insert p.1 p.2) extra).pairs = extra.pairs ++ pairs := by
  induction pairs generalizing extra with
  | nil => exact (List.append_nil _).symm
  | cons p pairs ih =>
    have hlt : ∀ q ∈ extra.pairs, q.1 < p.1 := fun q hq =>
      (List.pairwise_append.1 hsorted).2.2 q hq p List.mem_cons_self
    have hpairs : (extra.insert p.1 p.2).pairs = extra.pairs ++ [p] := insertSorted_of_lt hlt
    rw [List.foldl_cons, ih]
    · rw [hpairs, List.append_assoc]
      rfl
    · rw [hpairs, List.append_assoc]
      exact hsorted

/-- The other keys of an entry are those of their list of pairs. -/
theorem Extra.ofList_pairs (extra : Extra) : Extra.ofList extra.pairs = extra := by
  apply Extra.ext
  exact pairs_foldl_insert extra.pairs .empty extra.sorted

/-! ## Reading a record that was written -/

/-- The key of a field stands for the field. -/
theorem Field.ofKey?_name (field : Field) : ofKey? field.name = some field := by
  cases field <;> decide

/-- The name of a kind of automation stands for the kind. -/
theorem readAutomation_name (a : Automation) : readAutomation (.string a.name) = .ok a := by
  cases a <;> rfl

/-- A text that may be absent is read back. -/
theorem readOptional_optional (text : Option String) :
    readOptional readText (Entry.optional text) = .ok text := by
  cases text <;> rfl

/-- A list of texts is read back. -/
theorem mapM_readText (texts : List String) : (texts.map Value.string).mapM readText = .ok texts := by
  induction texts with
  | nil => rfl
  | cons text texts ih =>
    rw [List.map_cons, List.mapM_cons, ih]
    rfl

/-- The tags of an entry are read back. -/
theorem readOptional_tags (e : Entry) :
    readOptional readTexts (e.fieldValue .tags) = .ok e.tags := by
  unfold Entry.fieldValue
  cases e.tags with
  | none => rfl
  | some tags => exact map_eq_ok.2 ⟨tags, mapM_readText tags, rfl⟩

namespace Draft

/-- A pair under the key of a field is that field. -/
theorem takePair_name (d : Draft) (field : Field) (v : Value) :
    d.takePair (.string field.name, v) = d.put field v := by
  unfold takePair
  simp only [Value.untagged, Field.ofKey?_name]

/-- The draft with all managed fields of an entry. -/
def ofEntry (e : Entry) : Draft where
  testId := some e.testId
  testFile := some e.testFile
  title := some e.title
  bugId := some e.bugId
  priority := some e.priority
  feature := some e.feature
  tags := some e.tags
  isSkipped := some e.isSkipped
  automation := some e.automation
  description := some e.description
  expectedResult := some e.expectedResult
  isAutomated := some e.isAutomated

/-- The managed fields of a record fill a draft. -/
theorem foldlM_managed (e : Entry) :
    (Field.all.map fun field => (Value.string field.name, e.fieldValue field)).foldlM takePair {} =
      .ok (ofEntry e) := by
  have htags := readOptional_tags e
  simp only [Entry.fieldValue] at htags
  rw [List.foldlM_map]
  simp only [takePair_name, Field.all, List.foldlM_cons, List.foldlM_nil, put, fill,
    Entry.fieldValue, readOptional_optional, readAutomation_name, htags]
  rfl

/-- The other keys of a record are kept. -/
theorem foldlM_extra (d : Draft) (pairs : List (String × Value))
    (h : ∀ p ∈ pairs, Field.ofKey? p.1 = none ∧ p.2.hasTag = false) :
    (pairs.map fun (key, v) => (Value.string key, v)).foldlM takePair d =
      .ok { d with extra := pairs.foldl (fun extra p => extra.insert p.1 p.2) d.extra } := by
  induction pairs generalizing d with
  | nil => rfl
  | cons p pairs ih =>
    obtain ⟨hkey, hv⟩ := h p List.mem_cons_self
    have htake : d.takePair (.string p.1, p.2) = .ok { d with extra := d.extra.insert p.1 p.2 } := by
      unfold takePair
      simp only [Value.untagged, hkey, hv]
      exact if_neg Bool.false_ne_true
    rw [List.map_cons, List.foldlM_cons, htake]
    exact ih _ fun q hq => h q (List.mem_cons_of_mem p hq)

end Draft

/-- The record of an entry reads back as the entry. -/
theorem Entry.ofRecord_toRecord (e : Entry) (h : e.extra.Unmanaged) :
    Entry.ofRecord e.toRecord = .ok e := by
  show Except.bind (List.foldlM Draft.takePair {} (_ ++ _)) Draft.finish = _
  rw [List.foldlM_append, Draft.foldlM_managed]
  show Except.bind (List.foldlM Draft.takePair (Draft.ofEntry e) _) Draft.finish = _
  rw [Draft.foldlM_extra _ _ h]
  show Except.ok _ = Except.ok e
  have hextra : e.extra.pairs.foldl (fun extra p => extra.insert p.1 p.2) Extra.empty = e.extra :=
    Extra.ofList_pairs e.extra
  simp only [Draft.ofEntry, hextra, Option.getD_some]

/-! ## What reading lets through -/

namespace Draft

/-- A managed field leaves the other keys as they are. -/
theorem extra_put {d d' : Draft} {field : Field} {v : Value} (h : d.put field v = .ok d') :
    d'.extra = d.extra := by
  cases field <;>
  · obtain ⟨slot, -, rfl⟩ := map_eq_ok.1 h
    rfl

/-- Reading a pair lets no managed key and no tag in among the other keys. -/
theorem unmanaged_takePair {d d' : Draft} {pair : Value × Value} (hd : d.extra.Unmanaged)
    (h : d.takePair pair = .ok d') : d'.extra.Unmanaged := by
  unfold takePair at h
  split at h
  · rename_i key _
    cases hkey : Field.ofKey? key with
    | some field =>
      rw [hkey] at h
      rw [extra_put h]
      exact hd
    | none =>
      rw [hkey] at h
      cases htag : pair.2.hasTag with
      | true =>
        rw [htag] at h
        exact nomatch h
      | false =>
        rw [htag] at h
        obtain rfl := Except.ok.inj h
        exact hd.insert hkey htag
  · exact nomatch h

end Draft

/-- An entry that was read has no managed key and no tag among its other keys. -/
theorem Entry.unmanaged_of_ofRecord {record : Value} {e : Entry}
    (h : Entry.ofRecord record = .ok e) : e.extra.Unmanaged := by
  unfold Entry.ofRecord at h
  split at h
  · rename_i pairs _
    obtain ⟨d, hd, h⟩ := bind_eq_ok.1 (show pairs.foldlM Draft.takePair {} >>= Draft.finish = _ from h)
    have hextra : d.extra.Unmanaged :=
      foldlM_invariant (·.extra.Unmanaged) (fun _ _ _ => Draft.unmanaged_takePair)
        Extra.unmanaged_empty hd
    unfold Draft.finish at h
    split at h
    · exact nomatch h
    · obtain rfl := Except.ok.inj h
      exact hextra
  · exact nomatch h

/-! ## Documents -/

namespace Manifest

/-- A list of records reads back as the entries that it was written from. -/
theorem readRecords_toRecord (index : Nat) (entries : List Entry)
    (h : ∀ e ∈ entries, e.extra.Unmanaged) :
    readRecords index (entries.map (·.toRecord)) = .ok entries := by
  induction entries generalizing index with
  | nil => rfl
  | cons e entries ih =>
    rw [List.map_cons, readRecords, e.ofRecord_toRecord (h e List.mem_cons_self)]
    show Except.map (e :: ·) (readRecords (index + 1) (entries.map (·.toRecord))) = _
    rw [ih (index + 1) fun e' he' => h e' (List.mem_cons_of_mem e he')]
    rfl

/-- The document of some entries reads back as the entries. -/
theorem ofValue_toValue (origin : String) (entries : List Entry)
    (h : ∀ e ∈ entries, e.extra.Unmanaged) : ofValue origin (toValue entries) = .ok entries :=
  readRecords_toRecord 0 entries h

/-- Records that were read have no managed key and no tag among their other keys. -/
theorem unmanaged_of_readRecords {index : Nat} {records : List Value} {entries : List Entry}
    (h : readRecords index records = .ok entries) : ∀ e ∈ entries, e.extra.Unmanaged := by
  induction records generalizing index entries with
  | nil =>
    obtain rfl := Except.ok.inj h
    exact List.forall_mem_nil _
  | cons record records ih =>
    unfold readRecords at h
    cases hrecord : Entry.ofRecord record with
    | error e =>
      rw [hrecord] at h
      exact nomatch h
    | ok e =>
      rw [hrecord] at h
      obtain ⟨entries, hentries, rfl⟩ := map_eq_ok.1 h
      exact List.forall_mem_cons.2 ⟨Entry.unmanaged_of_ofRecord hrecord, ih hentries⟩

/-- Entries that were read from a text have no managed key and no tag among their other keys. -/
theorem unmanaged_of_parse {origin : String} {text : List Char} {entries : List Entry}
    (h : parse origin text = .ok entries) : ∀ e ∈ entries, e.extra.Unmanaged := by
  unfold parse at h
  split at h
  · exact nomatch h
  · unfold ofValue at h
    split at h
    · exact unmanaged_of_readRecords h
    · exact nomatch h

/-- The text of some entries denotes the document that it was written from. -/
def ReadsBack (entries : List Entry) : Prop :=
  Value.parse? (render entries) = some (toValue entries)

instance (entries : List Entry) : Decidable (ReadsBack entries) :=
  inferInstanceAs (Decidable (_ = _))

/-- A text that denotes its document reads back as the entries. -/
theorem parse_render {entries : List Entry} (hback : ReadsBack entries) (origin : String)
    (h : ∀ e ∈ entries, e.extra.Unmanaged) : parse origin (render entries) = .ok entries := by
  unfold parse
  rw [hback]
  exact ofValue_toValue origin entries h

end Manifest

end ManifestSync
