import Mathlib.Data.List.Nodup
import Mathlib.Tactic.SplitIfs
import ManifestSync.Proofs.Manifest.Record

/-!
# Other keys are carried through

A record may be given a key that the tool does not manage. `carriedThrough_iff` says what becomes of
a manifest when one of its records gets such a key: the manifest is still accepted, the managed fields
of all entries are what they were, and the entry of that record has the key with its value among its
other keys. This holds exactly if there is no tag in the value, be it deep inside it; with a tag the
whole manifest is refused.

The proof reads the pairs behind the new one as if it were not there. Taking in another pair does not
look at the other keys of a draft and, unless it has the same key, does not undo the new one
(`Draft.takePair_gain`); where the key goes among those already kept does not depend on the order in
which they come (`Extra.insert_insert`).
-/

namespace ManifestSync

open Yaml (Value)

/-! ## Adding to the other keys -/

/-- The pairs of a sorted list after an insertion are the new one and the old ones with other keys. -/
theorem mem_insertSorted_iff {key : String} {v : Value} {pairs : List (String × Value)}
    (hsorted : pairs.Pairwise (·.1 < ·.1)) {p : String × Value} :
    p ∈ insertSorted key v pairs ↔ p = (key, v) ∨ (p ∈ pairs ∧ p.1 ≠ key) := by
  induction pairs with
  | nil => simp [insertSorted]
  | cons q pairs ih =>
    obtain ⟨k, w⟩ := q
    obtain ⟨hk, hpairs⟩ := List.pairwise_cons.1 hsorted
    -- Behind a pair whose key is not below the new one, no key is the new one.
    have habove : ¬ k < key → ∀ q ∈ pairs, q.1 ≠ key := by
      rintro hnot q hq rfl
      exact hnot (hk q hq)
    unfold insertSorted
    split_ifs with hlt hgt
    · have hne : k ≠ key := by
        rintro rfl
        exact String.lt_irrefl k hlt
      have hother := habove (String.lt_asymm hlt)
      grind
    · have hne : k ≠ key := by
        rintro rfl
        exact String.lt_irrefl k hgt
      grind
    · have heq : k = key := String.le_antisymm hlt hgt
      have hother := habove hgt
      grind

namespace Extra

variable {extra : Extra}

/-- No key is kept twice. -/
theorem nodup_pairs (extra : Extra) : extra.pairs.Nodup := by
  refine List.Pairwise.imp (fun {p q} hlt => ?_) extra.sorted
  rintro rfl
  exact String.lt_irrefl p.1 hlt

/-- The pairs that are kept determine the other keys. -/
theorem ext_mem {a b : Extra} (h : ∀ p, p ∈ a.pairs ↔ p ∈ b.pairs) : a = b := by
  have hperm : a.pairs.Perm b.pairs :=
    (List.perm_ext_iff_of_nodup a.nodup_pairs b.nodup_pairs).2 h
  refine Extra.ext (hperm.eq_of_pairwise (fun p q _ _ hpq hqp => ?_) a.sorted b.sorted)
  exact absurd hpq (String.lt_asymm hqp)

/-- After an insertion the new pair is kept, and those with other keys. -/
theorem mem_insert_iff {key : String} {v : Value} {p : String × Value} :
    p ∈ (extra.insert key v).pairs ↔ p = (key, v) ∨ (p ∈ extra.pairs ∧ p.1 ≠ key) :=
  mem_insertSorted_iff extra.sorted

/-- The other keys without their values. -/
def keys (extra : Extra) : List String := extra.pairs.map (·.1)

/-- After an insertion the keys are the new one and those that there were. -/
theorem mem_keys_insert_iff {key name : String} {v : Value} :
    name ∈ (extra.insert key v).keys ↔ name = key ∨ name ∈ extra.keys := by
  simp only [keys, List.mem_map, mem_insert_iff]
  by_cases hname : name = key
  · exact ⟨fun _ => .inl hname, fun _ => ⟨(key, v), .inl rfl, hname.symm⟩⟩
  · constructor
    · rintro ⟨p, rfl | ⟨hp, -⟩, rfl⟩
      · exact absurd rfl hname
      · exact .inr ⟨p, hp, rfl⟩
    · rintro (h | ⟨p, hp, rfl⟩)
      · exact absurd h hname
      · exact ⟨p, .inr ⟨hp, hname⟩, rfl⟩

/-- Two different keys may be inserted in either order. -/
theorem insert_insert {key key' : String} (hne : key ≠ key') (v v' : Value) :
    (extra.insert key v).insert key' v' = (extra.insert key' v').insert key v := by
  refine ext_mem fun p => ?_
  simp only [mem_insert_iff]
  grind

end Extra

/-! ## Reading a record with one more pair -/

namespace Draft

variable {d : Draft} {key : String} {v : Value}

/-- A draft with one more key among the other ones. -/
def gain (d : Draft) (key : String) (v : Value) : Draft :=
  { d with extra := d.extra.insert key v }

/-- A managed field is taken in regardless of the other keys. -/
theorem put_gain (d : Draft) (key : String) (v : Value) (field : Field) (value : Value) :
    (d.gain key v).put field value = (d.put field value).map (·.gain key v) := by
  cases field <;>
  · unfold put gain
    dsimp only
    generalize fill _ _ _ _ = slot
    cases slot <;> rfl

/-- A pair with another key is taken in regardless of a key gained before. -/
theorem takePair_gain {pair : Value × Value} (hne : pair.1.untagged ≠ .string key) :
    (d.gain key v).takePair pair = (d.takePair pair).map (·.gain key v) := by
  unfold takePair
  split
  · rename_i name hname
    cases hfield : Field.ofKey? name with
    | some field => exact d.put_gain key v field pair.2
    | none =>
      dsimp only
      split_ifs
      · rfl
      · -- Both keys go to their places, whichever comes first.
        have hkey : key ≠ name := by
          rintro rfl
          exact hne hname
        exact congrArg (fun extra => Except.ok { d with extra }) (Extra.insert_insert hkey v pair.2)
  · rfl

/-- Pairs with other keys are taken in regardless of a key gained before. -/
theorem foldlM_gain {pairs : List (Value × Value)}
    (hne : ∀ pair ∈ pairs, pair.1.untagged ≠ .string key) :
    pairs.foldlM takePair (d.gain key v) = (pairs.foldlM takePair d).map (·.gain key v) := by
  induction pairs generalizing d with
  | nil => rfl
  | cons pair pairs ih =>
    obtain ⟨hpair, hpairs⟩ := List.forall_mem_cons.1 hne
    rw [List.foldlM_cons, List.foldlM_cons, takePair_gain hpair]
    cases d.takePair pair with
    | error e => rfl
    | ok d' => exact ih hpairs

/-- A pair under a new key that stands for no field is gained, unless a tag is in its value. -/
theorem takePair_other (d : Draft) (hkey : Field.ofKey? key = none) :
    d.takePair (.string key, v) = if v.hasTag then .error .taggedExtra else .ok (d.gain key v) := by
  unfold takePair
  simp only [Value.untagged, hkey]
  rfl

/-- A draft that has gained a key makes the same entry with that key. -/
theorem finish_gain {e : Entry} (h : d.finish = .ok e) :
    (d.gain key v).finish = .ok { e with extra := e.extra.insert key v } := by
  unfold finish at h ⊢
  unfold gain
  dsimp only
  split at h
  · exact nomatch h
  · obtain rfl := Except.ok.inj h
    rfl

/-- A finished draft keeps its other keys. -/
theorem extra_finish {e : Entry} (h : d.finish = .ok e) : e.extra = d.extra := by
  unfold finish at h
  split at h
  · exact nomatch h
  · obtain rfl := Except.ok.inj h
    rfl

/-- Taking in a pair adds its key to the other ones if it stands for no field. -/
theorem mem_keys_takePair_iff {d' : Draft} {pair : Value × Value} (h : d.takePair pair = .ok d')
    (hkey : Field.ofKey? key = none) :
    key ∈ d'.extra.keys ↔ key ∈ d.extra.keys ∨ pair.1.untagged = .string key := by
  unfold takePair at h
  split at h
  · rename_i name hname
    rw [hname, Value.string.injEq]
    cases hfield : Field.ofKey? name with
    | some field =>
      have hne : name ≠ key := by
        rintro rfl
        exact nomatch hkey.symm.trans hfield
      rw [hfield] at h
      rw [extra_put h]
      exact ⟨.inl, fun h => h.resolve_right hne⟩
    | none =>
      rw [hfield] at h
      dsimp only at h
      split_ifs at h
      obtain rfl := Except.ok.inj h
      rw [Extra.mem_keys_insert_iff, or_comm, eq_comm]
  · exact nomatch h

/-- The other keys of a draft are those that it had and those of the pairs that stand for no field. -/
theorem mem_keys_foldlM_iff {pairs : List (Value × Value)} {d' : Draft}
    (h : pairs.foldlM takePair d = .ok d') (hkey : Field.ofKey? key = none) :
    key ∈ d'.extra.keys ↔
      key ∈ d.extra.keys ∨ ∃ pair ∈ pairs, pair.1.untagged = .string key := by
  induction pairs generalizing d with
  | nil =>
    obtain rfl := Except.ok.inj h
    simp
  | cons pair pairs ih =>
    rw [List.foldlM_cons] at h
    obtain ⟨mid, hmid, h⟩ := bind_eq_ok.1 h
    rw [ih h, mem_keys_takePair_iff hmid hkey, or_assoc]
    simp only [List.exists_mem_cons_iff]

end Draft

namespace Yaml.Value

/-- Whether a text is a key of the mapping that a value is under its tags. A tag on the key does not
count either. -/
def HasKey (record : Value) (key : String) : Prop :=
  ∃ pairs, record.untagged = .map pairs ∧ ∃ pair ∈ pairs, pair.1.untagged = .string key

/-- The value with a pair added to the mapping that it is under its tags, behind the first `n` pairs. -/
def insertPair (n : Nat) (pair : Value × Value) : Value → Value
  | .map pairs => .map (pairs.take n ++ pair :: pairs.drop n)
  | .tagged tag content => .tagged tag (content.insertPair n pair)
  | other => other

/-- A pair is added to the mapping behind all tags. -/
theorem untagged_insertPair (n : Nat) (pair : Value × Value) {record : Value}
    {pairs : List (Value × Value)} (h : record.untagged = .map pairs) :
    (record.insertPair n pair).untagged = .map (pairs.take n ++ pair :: pairs.drop n) := by
  induction record using untagged.induct with
  | case1 tag content ih => exact ih h
  | case2 record hnot =>
    rw [untagged.eq_2 record hnot] at h
    subst h
    rfl

end Yaml.Value

namespace Entry

variable {record : Value} {key : String} {v : Value} {old : Entry}

/-- An entry has what another one has and, among its other keys, one more with its value. -/
structure Gains (old : Entry) (key : String) (v : Value) (new : Entry) : Prop where
  /-- All managed fields are the same. -/
  managed : { new with extra := old.extra } = old
  /-- The key has been none of the other keys. -/
  fresh : key ∉ old.extra.keys
  /-- The other keys are those that there were and the new one, each with its value. -/
  extra : ∀ p, p ∈ new.extra.pairs ↔ p = (key, v) ∨ p ∈ old.extra.pairs

/-- A record has been read exactly if its pairs have made the draft of its entry. -/
theorem ofRecord_eq_ok_iff : ofRecord record = .ok old ↔ ∃ pairs d,
    record.untagged = .map pairs ∧ pairs.foldlM Draft.takePair {} = .ok d ∧ d.finish = .ok old := by
  unfold ofRecord
  cases hrecord : record.untagged with
  | map pairs =>
    constructor
    · intro h
      obtain ⟨d, hd, hold⟩ := bind_eq_ok.1
        (show pairs.foldlM Draft.takePair {} >>= Draft.finish = .ok old from h)
      exact ⟨pairs, d, rfl, hd, hold⟩
    · rintro ⟨_, d, hpairs, hd, hold⟩
      obtain rfl := Value.map.inj hpairs
      exact bind_eq_ok.2 ⟨d, hd, hold⟩
  | _ =>
    constructor
    · intro h
      cases h
    · rintro ⟨_, _, hpairs, -⟩
      cases hpairs

/-- The other keys of an entry are those of its record that stand for no field. -/
theorem mem_keys_iff_hasKey (h : ofRecord record = .ok old) (hkey : Field.ofKey? key = none) :
    key ∈ old.extra.keys ↔ record.HasKey key := by
  obtain ⟨pairs, d, hpairs, hd, hold⟩ := ofRecord_eq_ok_iff.1 h
  have hempty : key ∉ ({} : Draft).extra.keys := List.not_mem_nil
  rw [Draft.extra_finish hold, Draft.mem_keys_foldlM_iff hd hkey]
  constructor
  · exact fun h => ⟨pairs, hpairs, h.resolve_left hempty⟩
  · rintro ⟨pairs', hpairs', hpair⟩
    obtain rfl := Value.map.inj (hpairs.symm.trans hpairs')
    exact .inr hpair

/-- A record with one more key that stands for no field is refused if there is a tag in the value. -/
theorem ofRecord_insertPair_of_hasTag (n : Nat) (h : ofRecord record = .ok old)
    (hkey : Field.ofKey? key = none) (htag : v.hasTag = true) :
    ofRecord (record.insertPair n (.string key, v)) = .error .taggedExtra := by
  obtain ⟨pairs, d, hpairs, hd, -⟩ := ofRecord_eq_ok_iff.1 h
  -- The pairs in front of the new one are read as before.
  rw [← List.take_append_drop n pairs, List.foldlM_append] at hd
  obtain ⟨front, hfront, -⟩ := bind_eq_ok.1 hd
  unfold ofRecord
  rw [Value.untagged_insertPair n _ hpairs]
  show (List.foldlM Draft.takePair {} _ >>= Draft.finish) = _
  rw [List.foldlM_append, hfront]
  show (List.foldlM Draft.takePair front _ >>= Draft.finish) = _
  rw [List.foldlM_cons, Draft.takePair_other front hkey, if_pos htag]
  rfl

/-- A record with a new key that stands for no field is read as if the key were not there, which is
then gained, if there is no tag in its value. -/
theorem ofRecord_insertPair (n : Nat) (h : ofRecord record = .ok old)
    (hkey : Field.ofKey? key = none) (hnew : ¬ record.HasKey key) (htag : v.hasTag = false) :
    ofRecord (record.insertPair n (.string key, v)) =
      .ok { old with extra := old.extra.insert key v } := by
  obtain ⟨pairs, d, hpairs, hd, hold⟩ := ofRecord_eq_ok_iff.1 h
  refine ofRecord_eq_ok_iff.2 ⟨_, d.gain key v, Value.untagged_insertPair n _ hpairs, ?_,
    Draft.finish_gain hold⟩
  rw [← List.take_append_drop n pairs, List.foldlM_append] at hd
  obtain ⟨front, hfront, hback⟩ := bind_eq_ok.1 hd
  have hother : ∀ pair ∈ pairs.drop n, pair.1.untagged ≠ .string key := fun pair hpair hname =>
    hnew ⟨pairs, hpairs, pair, List.mem_of_mem_drop hpair, hname⟩
  rw [List.foldlM_append]
  refine bind_eq_ok.2 ⟨front, hfront, ?_⟩
  rw [List.foldlM_cons, Draft.takePair_other front hkey, htag]
  refine bind_eq_ok.2 ⟨front.gain key v, rfl, ?_⟩
  rw [Draft.foldlM_gain hother, hback]
  rfl

/-- An entry with a new key inserted among its other keys has gained it. -/
theorem gains_insert (hfresh : key ∉ old.extra.keys) :
    old.Gains key v { old with extra := old.extra.insert key v } where
  managed := rfl
  fresh := hfresh
  extra p := by
    have hne : p ∈ old.extra.pairs → p.1 ≠ key := by
      rintro hp rfl
      exact hfresh (List.mem_map_of_mem hp)
    rw [Extra.mem_insert_iff]
    exact or_congr_right ⟨fun hp => hp.1, fun hp => ⟨hp, hne hp⟩⟩

end Entry

/-! ## The whole manifest -/

namespace Manifest

variable {front back : List Value} {record : Value} {entries : List Entry} {index : Nat}

/-- In a list of records that has been read, one record may be replaced: its entry is replaced, or the
list is refused for it. -/
theorem readRecords_replace (record' : Value)
    (h : readRecords index (front ++ record :: back) = .ok entries) :
    ∃ old, entries[front.length]? = some old ∧ Entry.ofRecord record = .ok old ∧
      readRecords index (front ++ record' :: back) =
        match Entry.ofRecord record' with
        | .error e => .error (.manifestRecord (index + front.length) e)
        | .ok new => .ok (entries.set front.length new) := by
  induction front generalizing index entries with
  | nil =>
    rw [List.nil_append, readRecords] at h ⊢
    cases hrecord : Entry.ofRecord record with
    | error e =>
      rw [hrecord] at h
      cases h
    | ok old =>
      rw [hrecord] at h
      obtain ⟨after, hafter, rfl⟩ := map_eq_ok.1 h
      refine ⟨old, rfl, rfl, ?_⟩
      cases Entry.ofRecord record' with
      | error e => rfl
      | ok new => exact map_eq_ok.2 ⟨after, hafter, rfl⟩
  | cons first front ih =>
    rw [List.cons_append, readRecords] at h ⊢
    cases hfirst : Entry.ofRecord first with
    | error e =>
      rw [hfirst] at h
      cases h
    | ok e =>
      rw [hfirst] at h
      obtain ⟨after, hafter, rfl⟩ := map_eq_ok.1 h
      obtain ⟨old, hold, hrecord, hreplaced⟩ := ih hafter
      refine ⟨old, hold, hrecord, ?_⟩
      dsimp only
      rw [hreplaced, List.length_cons, Nat.add_assoc index 1, Nat.add_comm 1]
      cases Entry.ofRecord record' with
      | error e => rfl
      | ok new => rfl

/-- What is read has the entries of a list, of which the one with the number `i` has gained a key. -/
def CarriedThrough (entries : List Entry) (i : Nat) (key : String) (v : Value)
    (result : Except Failure (List Entry)) : Prop :=
  ∃ old new, entries[i]? = some old ∧ old.Gains key v new ∧ result = .ok (entries.set i new)

/-- A manifest is accepted, and a record of it is given a key that stands for no field, anywhere among
its pairs. The key is carried through with its value exactly if it is new and there is no tag in the
value. With a tag in it the manifest is refused for that record. -/
theorem carriedThrough_iff {origin : String} {text text' : List Char} {n : Nat} {key : String}
    {v : Value} (htext : Value.parse? text = some (.seq (front ++ record :: back)))
    (htext' : Value.parse? text' =
      some (.seq (front ++ record.insertPair n (.string key, v) :: back)))
    (h : parse origin text = .ok entries) (hkey : Field.ofKey? key = none) :
    (CarriedThrough entries front.length key v (parse origin text') ↔
      ¬ record.HasKey key ∧ v.hasTag = false) ∧
    (v.hasTag = true →
      parse origin text' = .error (.manifestRecord front.length .taggedExtra)) := by
  have hread : readRecords 0 (front ++ record :: back) = .ok entries := by
    unfold parse at h
    rwa [htext] at h
  obtain ⟨old, hold, hrecord, hreplaced⟩ :=
    readRecords_replace (record.insertPair n (.string key, v)) hread
  have hparse : parse origin text' =
      readRecords 0 (front ++ record.insertPair n (.string key, v) :: back) := by
    unfold parse
    rw [htext']
    rfl
  rw [Nat.zero_add, ← hparse] at hreplaced
  have hrefused : v.hasTag = true →
      parse origin text' = .error (.manifestRecord front.length .taggedExtra) := by
    intro htag
    rw [hreplaced, Entry.ofRecord_insertPair_of_hasTag n hrecord hkey htag]
  refine ⟨⟨?_, ?_⟩, hrefused⟩
  · rintro ⟨old', new, hold', hgains, hok⟩
    obtain rfl := Option.some.inj (hold.symm.trans hold')
    constructor
    · rw [← Entry.mem_keys_iff_hasKey hrecord hkey]
      exact hgains.fresh
    · refine Bool.eq_false_iff.2 fun htag => ?_
      exact nomatch (hrefused htag).symm.trans hok
  · rintro ⟨hnew, htag⟩
    have hfresh : key ∉ old.extra.keys := by
      rwa [Entry.mem_keys_iff_hasKey hrecord hkey]
    refine ⟨old, _, hold, Entry.gains_insert hfresh, ?_⟩
    rw [hreplaced, Entry.ofRecord_insertPair n hrecord hkey hnew htag]

/-- A manifest of two records, one of which is given a list with a mapping in it, in front of a key that
it had. -/
theorem carriedThrough_iff_nested :
    let text := "- testId: TC-1\n- test_id: TC-2\n  owner: qa\n"
    let text' := "- testId: TC-1\n- test_id: TC-2\n  links: [1, {a: ~}]\n  owner: qa\n"
    let links : Value := .seq [.int 1, .map [(.string "a", .null)]]
    ∃ entries, parse "tests.yml" text.toList = .ok entries ∧
      CarriedThrough entries 1 "links" links (parse "tests.yml" text'.toList) := by
  intro text text' links
  let record : Value := .map [(.string "test_id", .string "TC-2"), (.string "owner", .string "qa")]
  let front : List Value := [.map [(.string "testId", .string "TC-1")]]
  have htext : Value.parse? text.toList = some (.seq (front ++ record :: [])) := by decide +kernel
  have htext' : Value.parse? text'.toList =
      some (.seq (front ++ record.insertPair 1 (.string "links", links) :: [])) := by decide +kernel
  have hnew : ¬ record.HasKey "links" := by
    rintro ⟨pairs, hpairs, hpair⟩
    obtain rfl := Value.map.inj hpairs
    revert hpair
    decide
  cases hparse : parse "tests.yml" text.toList with
  | error failure =>
    have hok : (parse "tests.yml" text.toList).isOk = true := by decide +kernel
    rw [hparse] at hok
    exact nomatch hok
  | ok entries =>
    have hiff := (carriedThrough_iff htext htext' hparse (by decide)).1
    exact ⟨entries, rfl, hiff.2 ⟨hnew, rfl⟩⟩

/-- A value under a tag is not carried through: it makes a manifest unreadable that was accepted. -/
theorem not_forall_carriedThrough :
    ¬ ∀ (origin : String) (text text' : List Char) (front back : List Value) (record v : Value)
        (n : Nat) (key : String) (entries : List Entry),
      Value.parse? text = some (.seq (front ++ record :: back)) →
      Value.parse? text' = some (.seq (front ++ record.insertPair n (.string key, v) :: back)) →
      parse origin text = .ok entries → ¬ record.HasKey key → Field.ofKey? key = none →
      CarriedThrough entries front.length key v (parse origin text') := by
  intro h
  let record : Value := .map [(.string "testId", .string "TC-1")]
  have hnew : ¬ record.HasKey "owner" := by
    rintro ⟨pairs, hpairs, hpair⟩
    obtain rfl := Value.map.inj hpairs
    revert hpair
    decide
  let text := "- testId: TC-1\n".toList
  let text' := "- testId: TC-1\n  owner: !team qa\n".toList
  have haccepted : (parse "tests.yml" text).isOk = true := by decide +kernel
  have hrefused : (parse "tests.yml" text').isOk = false := by decide +kernel
  cases hparse : parse "tests.yml" text with
  | error failure =>
    rw [hparse] at haccepted
    exact nomatch haccepted
  | ok entries =>
    obtain ⟨_, _, -, -, hok⟩ := h "tests.yml" text text' [] [] record
      (.tagged "!team" (.string "qa")) 1 "owner" entries (by decide +kernel) (by decide +kernel)
      hparse hnew (by decide)
    rw [hok] at hrefused
    exact nomatch hrefused

end Manifest

end ManifestSync
