import Mathlib.Data.List.Destutter
import Mathlib.Data.List.Sort
import Mathlib.Data.String.Basic
import ManifestSync.Proofs.Sync.Alignment

/-!
# Tags are compared as sets

Two lists of tags are compared by their canonical lists, and the canonical list of some tags is what
is left of them when they are sorted and equal neighbours are kept once
(`canonicalTags_eq_sortedTags`). Equal tags are neighbours once the tags are sorted, so such a list is
strictly increasing; it holds the tags that it was made of, and there is only one strictly increasing
list of a set of tags.

The comparison is therefore that of sets (`isSetEquality_sameTags`): neither the order of the tags nor
how often one is there has any influence on it.
-/

namespace ManifestSync

/-! ## Sorted tags -/

/-- Tags in order; of neighbours that are equal one is kept. -/
def sortedTags (tags : List String) : List String :=
  (tags.mergeSort (· ≤ ·)).destutter (· ≠ ·)

/-- In a sorted list all equal tags are neighbours, so that none is left twice. -/
theorem sortedTags_eq_dedup (tags : List String) :
    sortedTags tags = (tags.mergeSort (· ≤ ·)).dedup :=
  List.sortedLE_mergeSort.pairwise.destutter_eq_dedup

/-- Sorting the tags loses none of them and adds none. -/
theorem mem_sortedTags {tags : List String} {tag : String} :
    tag ∈ sortedTags tags ↔ tag ∈ tags := by
  rw [sortedTags_eq_dedup, List.mem_dedup, List.mem_mergeSort]

/-- Sorted tags are strictly increasing. -/
theorem sortedLT_sortedTags (tags : List String) : (sortedTags tags).SortedLT := by
  rw [sortedTags_eq_dedup]
  have hsorted := List.sortedLE_mergeSort.pairwise.sublist
    (List.dedup_sublist (tags.mergeSort (· ≤ ·)))
  exact hsorted.sortedLE.sortedLT_of_nodup (List.nodup_dedup _)

/-- The canonical list of some tags holds just these. -/
theorem mem_canonicalTags {tags : List String} {tag : String} :
    tag ∈ canonicalTags tags ↔ tag ∈ tags := by
  unfold canonicalTags
  rw [Std.TreeSet.mem_toList, Std.TreeSet.mem_ofList, List.contains_iff_mem]

/-- Canonical lists of tags are strictly increasing. -/
theorem sortedLT_canonicalTags (tags : List String) : (canonicalTags tags).SortedLT := by
  have hordered : (canonicalTags tags).Pairwise (compare · · = .lt) := Std.TreeSet.ordered_toList
  exact (hordered.imp compareOfLessAndEq_eq_lt.1).sortedLT

/-- The canonical list of some tags is the sorted one. -/
theorem canonicalTags_eq_sortedTags (tags : List String) : canonicalTags tags = sortedTags tags :=
  (sortedLT_canonicalTags tags).eq_of_mem_iff (sortedLT_sortedTags tags) fun _ =>
    mem_canonicalTags.trans mem_sortedTags.symm

/-- Two lists of tags count as the same exactly if they are the same when they are sorted. -/
theorem sameTags_iff_sortedTags (a b : Option (List String)) :
    sameTags a b = true ↔ sortedTags (a.getD []) = sortedTags (b.getD []) := by
  rw [sameTags, beq_iff_eq, canonicalTags_eq_sortedTags, canonicalTags_eq_sortedTags]

/-! ## The comparison -/

/-- Lists with the same tags can take each other's place on both sides of a comparison. -/
theorem sameTags_congr {a a' b b' : Option (List String)}
    (ha : ∀ tag, tag ∈ a.getD [] ↔ tag ∈ a'.getD [])
    (hb : ∀ tag, tag ∈ b.getD [] ↔ tag ∈ b'.getD []) : sameTags a b = sameTags a' b' := by
  rw [Bool.eq_iff_iff, sameTags_iff_mem, sameTags_iff_mem]
  exact forall_congr' fun tag => by rw [ha, hb]

/-- Counting as the same is an equivalence of lists of tags. -/
theorem equivalence_sameTags : Equivalence fun a b => sameTags a b = true where
  refl := sameTags_self
  symm h := by
    rw [sameTags_iff_mem] at h ⊢
    exact fun tag => (h tag).symm
  trans h h' := by
    rw [sameTags_iff_mem] at h h' ⊢
    exact fun tag => (h tag).trans (h' tag)

/-- A tag is in a list with some of its tags repeated if it is in the list. -/
theorem mem_append_of_subset {tags more : List String} (h : more ⊆ tags) (tag : String) :
    tag ∈ tags ++ more ↔ tag ∈ tags :=
  List.mem_append.trans (or_iff_left_of_imp fun hmore => h hmore)

/-- A comparison of lists of tags is the equality of the sets of tags that they hold. -/
structure IsSetEquality (same : Option (List String) → Option (List String) → Bool) : Prop where
  /-- Two lists are the same exactly if they hold the same tags; no list is one without tags. -/
  iff_mem : ∀ a b, same a b = true ↔ ∀ tag, tag ∈ a.getD [] ↔ tag ∈ b.getD []
  /-- It is an equivalence. -/
  equivalence : Equivalence fun a b => same a b = true
  /-- The order of the tags makes no difference, in either list. -/
  reordered : ∀ a a' b b', (a.getD []).Perm (a'.getD []) → (b.getD []).Perm (b'.getD []) →
    same a b = same a' b'
  /-- Tags that are repeated make no difference, in either list. -/
  repeated : ∀ a b more more', more ⊆ a.getD [] → more' ⊆ b.getD [] →
    same (some (a.getD [] ++ more)) (some (b.getD [] ++ more')) = same a b

/-- The comparison of tags by their sorted lists without equal neighbours is that of sets. -/
theorem isSetEquality_sameTags : IsSetEquality sameTags ∧
    ∀ a b, sameTags a b = true ↔ sortedTags (a.getD []) = sortedTags (b.getD []) where
  left :=
    { iff_mem := sameTags_iff_mem
      equivalence := equivalence_sameTags
      reordered := fun _ _ _ _ ha hb => sameTags_congr (fun _ => ha.mem_iff) fun _ => hb.mem_iff
      repeated := fun _ _ _ _ ha hb =>
        sameTags_congr (mem_append_of_subset ha) (mem_append_of_subset hb) }
  right := sameTags_iff_sortedTags

end ManifestSync
