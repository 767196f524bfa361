import ManifestSync.Proofs.Pattern.Search
import ManifestSync.Proofs.Text.Trimmed
import ManifestSync.Scan.Annotation

/-!
# Annotations and their matches

An annotation is what a match of its kind's pattern reads as (`annotationOf`), and a text has those
of the matches that a search finds (`mem_annotations_iff`). The patterns start with an `@`, and only
that of a description reads another one; so a description can run over the start of a later match,
and no other annotation can (`not_covers_of_kind_ne`).
-/

namespace ManifestSync.Scan

open Pattern

/-- The annotation that a match of a kind's pattern reads as. -/
def annotationOf (kind : AnnotationKind) (m : Match) : Annotation :=
  ⟨kind, m.start.offset, Text.trim ((m.group? 1).getD [])⟩

/-- The annotation of a kind that starts at a position. -/
def annotationAt? (kind : AnnotationKind) (c : Cursor) : Option Annotation :=
  (kind.pattern.matchAt? c).map (annotationOf kind)

/-- Every kind is in the list of all kinds. -/
theorem AnnotationKind.mem_all (kind : AnnotationKind) : kind ∈ all := by
  cases kind <;> decide

/-- The annotations of a text are what the matches found in it read as. -/
theorem mem_annotations_iff {source : List Char} {a : Annotation} :
    a ∈ annotations source ↔ ∃ m ∈ a.kind.pattern.findAll source, annotationOf a.kind m = a := by
  unfold annotations annotationsOf
  rw [List.mem_mergeSort, List.mem_flatMap]
  constructor
  · rintro ⟨kind, -, ha⟩
    obtain ⟨m, hm, rfl⟩ := List.mem_map.1 ha
    exact ⟨m, hm, rfl⟩
  · rintro ⟨m, hm, ha⟩
    exact ⟨a.kind, a.kind.mem_all, List.mem_map.2 ⟨m, hm, ha⟩⟩

/-- A text in which one annotation is found has that one. -/
theorem annotations_eq_singleton {source : List Char} {a : Annotation}
    (h : AnnotationKind.all.flatMap (annotationsOf source) = [a]) : annotations source = [a] := by
  -- The merge that puts annotations in order does not evaluate, but one of them is in order.
  rw [annotations, h, List.mergeSort_singleton]

/-- An annotation at a position is among those of the text exactly if the search finds its match,
that is, if no match found for its kind runs over the position. -/
theorem mem_annotations_iff_not_covered {source : List Char} {c : Cursor} {a : Annotation}
    (hc : c.IsIn source) (ha : annotationAt? a.kind c = some a) :
    a ∈ annotations source ↔ ¬ ∃ m ∈ a.kind.pattern.findAll source, m.Covers c.offset := by
  obtain ⟨m, hm, hread⟩ := Option.map_eq_some_iff.1 ha
  have hrest : c.rest ≠ [] := by
    refine rest_ne_nil_of_matchAt? ?_ hm
    cases a.kind <;> rfl
  rw [mem_annotations_iff, ← mem_findAll_iff hc hrest hm]
  constructor
  · rintro ⟨m', hm', hread'⟩
    obtain ⟨hin, hat⟩ := of_mem_findAll hm'
    have hstart := (moves_of_matchAt? hm).1
    have hoffset : m'.start.offset = c.offset := by
      rw [← hstart]
      exact congrArg Annotation.offset (hread'.trans hread.symm)
    rw [hin.eq_of_offset_eq hc hoffset, hm] at hat
    exact Option.some.inj hat ▸ hm'
  · intro hfound
    exact ⟨m, hfound, hread⟩

/-- A match of an `@` word and what follows it starts with an `@`; behind that come characters which
the rest of the pattern reads. -/
theorem exists_moves_of_mem_ends_word {names : List String} {p : Pattern} {r t : Reached}
    (ht : t ∈ (AnnotationKind.word names ++ p).ends r) :
    ∃ w, r.cursor.Moves ('@' :: w) t.cursor ∧
      ∀ ch ∈ w, (oneOf (names.map fun name => text name.toList) ++ p).reads ch = true := by
  obtain ⟨s₃, h₃, ht⟩ := mem_ends_append.1 ht
  obtain ⟨s₂, h₂, h₃⟩ := mem_ends_append.1 h₃
  obtain ⟨s₁, h₁, h₂⟩ := mem_ends_append.1 h₂
  obtain rfl := eq_of_mem_ite h₃
  obtain ⟨ch, hch, hmoves, -⟩ := mem_ends_one h₁
  obtain rfl := beq_iff_eq.1 hch
  obtain ⟨w, -, hw, hP, -⟩ := ends_spec _ s₁ t (mem_ends_append.2 ⟨s₃, h₂, ht⟩)
  exact ⟨w, hmoves.trans hw, hP⟩

/-- A match of a kind's pattern starts with an `@`, and has no other one unless the kind is that of
descriptions. -/
theorem exists_moves_of_matchAt?_kind {kind : AnnotationKind} {c : Cursor} {m : Match}
    (hm : kind.pattern.matchAt? c = some m) :
    ∃ w, c.Moves ('@' :: w) m.stop ∧ (kind ≠ .description → '@' ∉ w) := by
  obtain ⟨t, ht, rfl⟩ := exists_mem_ends_of_matchAt? hm
  -- An `@` word is followed by a pattern that does not read `@`.
  have hword : ∀ {names : List String} {p : Pattern},
      (oneOf (names.map fun name => text name.toList) ++ p).reads '@' = false →
      t ∈ (AnnotationKind.word names ++ p).ends ⟨c, []⟩ →
      ∃ w, c.Moves ('@' :: w) t.cursor ∧ '@' ∉ w := by
    intro names p hreads ht
    obtain ⟨w, hw, hP⟩ := exists_moves_of_mem_ends_word ht
    exact ⟨w, hw, fun hmem => Bool.false_ne_true (hreads.symm.trans (hP _ hmem))⟩
  cases kind with
  | bug =>
    obtain ⟨w, hw, hnot⟩ := hword (by decide) ht
    exact ⟨w, hw, fun _ => hnot⟩
  | priority =>
    obtain ⟨w, hw, hnot⟩ := hword (by decide) ht
    exact ⟨w, hw, fun _ => hnot⟩
  | feature =>
    obtain ⟨w, hw, hnot⟩ := hword (by decide) ht
    exact ⟨w, hw, fun _ => hnot⟩
  | skip =>
    obtain ⟨w, hw, hnot⟩ := @hword _ .empty (by decide)
      (mem_ends_append.2 ⟨t, ht, List.mem_singleton_self t⟩)
    exact ⟨w, hw, fun _ => hnot⟩
  | description =>
    obtain ⟨s, hs, ht⟩ := mem_ends_append.1 ht
    obtain ⟨w, hw, -⟩ := exists_moves_of_mem_ends_word hs
    obtain ⟨w', -, hw', -⟩ := ends_spec _ s t ht
    exact ⟨w ++ w', hw.trans hw', fun hne => absurd rfl hne⟩

/-- A match of another kind than that of descriptions does not run over the start of an annotation. -/
theorem not_covers_of_kind_ne {source : List Char} {c : Cursor} {a : Annotation}
    (hc : c.IsIn source) (ha : annotationAt? a.kind c = some a) (hkind : a.kind ≠ .description)
    {m : Match} (hm : m ∈ a.kind.pattern.findAll source) : ¬ m.Covers c.offset := by
  rintro ⟨hstart, hstop⟩
  obtain ⟨m', hm', -⟩ := Option.map_eq_some_iff.1 ha
  obtain ⟨hin, hat⟩ := of_mem_findAll hm
  obtain ⟨w, hw, hnot⟩ := exists_moves_of_matchAt?_kind hat
  obtain ⟨w', hw', -⟩ := exists_moves_of_matchAt?_kind hm'
  obtain ⟨u, v, hsplit, hu, hv⟩ := hw.exists_split hin hc (Nat.le_of_lt hstart) (Nat.le_of_lt hstop)
  -- Neither part of the match is empty, so the `@` at `c` is not the one it starts with.
  cases u with
  | nil =>
    have hoffset := hu.offset
    unfold Text.byteLength at hoffset
    omega
  | cons ch u =>
    cases v with
    | nil =>
      have hoffset := hv.offset
      unfold Text.byteLength at hoffset
      omega
    | cons ch' v =>
      have hhead : '@' :: (w' ++ m'.stop.rest) = ch' :: (v ++ m.stop.rest) :=
        hw'.rest.symm.trans hv.rest
      obtain ⟨rfl, -⟩ := List.cons.inj hhead
      obtain ⟨-, htail⟩ := List.cons.inj hsplit
      apply hnot hkind
      rw [htail]
      exact List.mem_append_right u List.mem_cons_self

/-! ## Order and values -/

/-- The annotations of a text stand in the order of the text. -/
theorem pairwise_annotations (source : List Char) :
    (annotations source).Pairwise (·.offset ≤ ·.offset) := by
  have hsorted : (annotations source).Pairwise fun a b => decide (a.offset ≤ b.offset) = true := by
    refine List.pairwise_mergeSort ?_ ?_ _
    · intro a b c hab hbc
      simp only [decide_eq_true_eq] at hab hbc ⊢
      exact Nat.le_trans hab hbc
    · intro a b
      simp only [Bool.or_eq_true, decide_eq_true_eq]
      exact Nat.le_total a.offset b.offset
  exact hsorted.imp of_decide_eq_true

/-- A text has at most one annotation of a kind at an offset. -/
theorem eq_of_mem_annotations {source : List Char} {a b : Annotation} (ha : a ∈ annotations source)
    (hb : b ∈ annotations source) (hkind : a.kind = b.kind) (hoffset : a.offset = b.offset) :
    a = b := by
  obtain ⟨m, hm, hread⟩ := mem_annotations_iff.1 ha
  obtain ⟨m', hm', hread'⟩ := mem_annotations_iff.1 hb
  have hstart : m.start.offset = m'.start.offset := by
    have h : m.start.offset = a.offset := congrArg Annotation.offset hread
    have h' : m'.start.offset = b.offset := congrArg Annotation.offset hread'
    rw [h, h', hoffset]
  rw [hkind] at hm hread
  calc a = annotationOf b.kind m := hread.symm
    _ = annotationOf b.kind m' := by rw [eq_of_mem_findAll hm hm' hstart]
    _ = b := hread'

/-- The value of an annotation has no white space at its ends. -/
theorem trim_value_of_mem_annotations {source : List Char} {a : Annotation}
    (ha : a ∈ annotations source) : Text.trim a.value = a.value := by
  obtain ⟨m, -, hread⟩ := mem_annotations_iff.1 ha
  rw [← congrArg Annotation.value hread]
  exact Text.trim_trim _

/-- A match of an `@` word with a value keeps a text that starts with a letter or digit. -/
theorem exists_value_of_mem_ends {p : Pattern} {others : List Char} {r t : Reached}
    (ht : t ∈ (p ++ AnnotationKind.value others).ends r) :
    ∃ (ch : Char) (w : List Char) (span : Span), Text.isAsciiAlphanumeric ch = true ∧
      t.groups.lookup 1 = some span ∧ span.text = ch :: w := by
  obtain ⟨s₁, -, ht⟩ := mem_ends_append.1 ht
  obtain ⟨s₂, -, ht⟩ := mem_ends_append.1 ht
  obtain ⟨s₃, h₃, rfl⟩ := mem_ends_group.1 ht
  obtain ⟨s₄, h₄, h₃⟩ := mem_ends_append.1 h₃
  obtain ⟨ch, hch, hmoves, -⟩ := mem_ends_one h₄
  obtain ⟨w, -, hw, -⟩ := ends_spec _ s₄ s₃ h₃
  exact ⟨ch, w, _, hch, List.lookup_cons_self, (hmoves.trans hw).textTo⟩

/-- An annotation of a bug, a priority or a feature has a value. -/
theorem value_ne_nil_of_mem_annotations {source : List Char} {a : Annotation}
    (ha : a ∈ annotations source) (hskip : a.kind ≠ .skip) (hdescription : a.kind ≠ .description) :
    a.value ≠ [] := by
  obtain ⟨m, hm, hread⟩ := mem_annotations_iff.1 ha
  obtain ⟨t, ht, hgroups⟩ := exists_mem_ends_of_matchAt? (of_mem_findAll hm).2
  have hvalue : ∃ (ch : Char) (w : List Char) (span : Span), Text.isAsciiAlphanumeric ch = true ∧
      t.groups.lookup 1 = some span ∧ span.text = ch :: w := by
    cases hkind : a.kind with
    | bug => rw [hkind] at ht; exact exists_value_of_mem_ends ht
    | priority => rw [hkind] at ht; exact exists_value_of_mem_ends ht
    | feature => rw [hkind] at ht; exact exists_value_of_mem_ends ht
    | skip => exact absurd hkind hskip
    | description => exact absurd hkind hdescription
  obtain ⟨ch, w, span, hch, hlookup, htext⟩ := hvalue
  have hval : Text.trim (ch :: w) = a.value := by
    rw [← congrArg Annotation.value hread, hgroups]
    simp only [annotationOf, Match.group?, hlookup, Option.map_some, Option.getD_some, htext]
  rw [← hval]
  exact List.ne_nil_of_mem
    (Text.mem_trim List.mem_cons_self (Text.isBlank_of_isAsciiAlphanumeric hch))

end ManifestSync.Scan
