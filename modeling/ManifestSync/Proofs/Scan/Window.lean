import ManifestSync.Proofs.Scan.Attribution

/-!
# Scans with a wider window

Two scans of one source that differ only in their windows locate the same declarations, so they find
the same tests with the same titles (`lastNamed?` does not mention the window). They differ in the
annotations that reach a declaration. `extract_widened` says which of them a wider window loses: those
at an offset so large that the sum of offset and window wraps, and no others.

For one annotation this is `mem_ownAnnotations_widened`. For the one that decides (`deciding?`) it also
has to stay the last one of its kind (`deciding?_widened`). A wider window adds annotations only in
front: if one stands behind an annotation that reached the declaration before, then it is nearer, and
so it reached the declaration as well (`mem_ownAnnotations_of_behind`).
-/

namespace ManifestSync.Scan

/-- The sum of the offset of an annotation and the window does not wrap. -/
def Settings.Fits (settings : Settings) (a : Annotation) : Prop :=
  a.offset + settings.window.toNat < UInt64.size

/-- What becomes of a value that an annotation decides: the annotation goes on to decide exactly if its
offset fits the window `far`, and then the value stays. -/
def KeepsValue (near far : Settings) (s : SourceText) (index : Nat) (kind : AnnotationKind)
    (value value' : Option String) : Prop :=
  ∀ v, value = some v → ∃ a, deciding? near s index kind = some a ∧ String.ofList a.value = v ∧
    (deciding? far s index kind = some a ↔ far.Fits a) ∧ (far.Fits a → value' = some v)

/-- What becomes of the metadata `m` of the declaration with the number `index`. -/
structure Widened (near far : Settings) (s : SourceText) (index : Nat) (m m' : Metadata) : Prop where
  /-- The test keeps its identifier. -/
  testId : m'.testId = m.testId
  /-- It keeps its title. -/
  title : m'.title = m.title
  /-- An annotation goes on to reach the declaration exactly if its offset fits. -/
  own : ∀ a ∈ ownAnnotations near s index, (a ∈ ownAnnotations far s index ↔ far.Fits a)
  /-- The bug stays if the annotation that decides it fits. -/
  bug : KeepsValue near far s index .bug m.bugId m'.bugId
  /-- The priority stays if the annotation that decides it fits. -/
  priority : KeepsValue near far s index .priority m.priority m'.priority
  /-- The feature stays if the annotation that decides it fits. -/
  feature : KeepsValue near far s index .feature m.feature m'.feature
  /-- The test stays skipped, unless annotations skipped it and none of these fits. -/
  skipped : m.isSkipped = true → m'.isSkipped = true ∨
    (∃ a ∈ ownAnnotations near s index, a.kind = .skip) ∧
      ∀ a ∈ ownAnnotations near s index, a.kind = .skip → ¬ far.Fits a

variable {word : IdWord} {narrow wide : UInt64} {s : SourceText} {index : Nat}

/-! ## The annotations that reach a declaration -/

/-- Where annotations reach a declaration there is one. -/
theorem exists_located_of_mem_ownAnnotations {settings : Settings} {a : Annotation}
    (h : a ∈ ownAnnotations settings s index) : ∃ l, (located settings s)[index]? = some l := by
  obtain ⟨-, -, howned⟩ := mem_ownAnnotations_iff_owned?.1 h
  obtain ⟨-, -, l, hl, -⟩ := owned?_eq_some_iff.1 howned
  exact ⟨l, hl⟩

/-- An annotation that reaches a declaration does so within a wider window exactly if it fits. -/
theorem mem_ownAnnotations_widened (hle : narrow ≤ wide) {a : Annotation}
    (h : a ∈ ownAnnotations ⟨word, narrow⟩ s index) :
    a ∈ ownAnnotations ⟨word, wide⟩ s index ↔ Settings.Fits ⟨word, wide⟩ a := by
  obtain ⟨l, hl⟩ := exists_located_of_mem_ownAnnotations h
  have hl' : (located ⟨word, wide⟩ s)[index]? = some l := hl
  obtain ⟨ha, haccepts, hfirst, ⟨hnear, -⟩, hsuite⟩ := (mem_ownAnnotations_iff hl).1 h
  rw [mem_ownAnnotations_iff hl']
  constructor
  · exact fun ⟨_, _, _, ⟨_, hfits⟩, _⟩ => hfits
  · intro hfits
    have hwindow : narrow.toNat ≤ wide.toNat := UInt64.le_iff_toNat_le.1 hle
    exact ⟨ha, haccepts, hfirst, ⟨Nat.le_trans hnear (Nat.add_le_add_left hwindow _), hfits⟩, hsuite⟩

/-- What reaches a declaration within a wider window, from behind an annotation that reaches it within
the narrower one, does the same. -/
theorem mem_ownAnnotations_of_behind (hle : narrow ≤ wide) {a b : Annotation}
    (ha : a ∈ ownAnnotations ⟨word, narrow⟩ s index)
    (hb : b ∈ ownAnnotations ⟨word, wide⟩ s index) (hbehind : a.offset ≤ b.offset) :
    b ∈ ownAnnotations ⟨word, narrow⟩ s index := by
  obtain ⟨l, hl⟩ := exists_located_of_mem_ownAnnotations ha
  have hl' : (located ⟨word, wide⟩ s)[index]? = some l := hl
  obtain ⟨-, -, -, ⟨hnear, -⟩, -⟩ := (mem_ownAnnotations_iff hl).1 ha
  obtain ⟨hb, haccepts, hfirst, ⟨-, hfits⟩, hsuite⟩ := (mem_ownAnnotations_iff hl').1 hb
  have hwindow : narrow.toNat ≤ wide.toNat := UInt64.le_iff_toNat_le.1 hle
  refine (mem_ownAnnotations_iff hl).2 ⟨hb, haccepts, hfirst, ⟨?_, ?_⟩, hsuite⟩
  · exact Nat.le_trans hnear (Nat.add_le_add_right hbehind _)
  · exact Nat.lt_of_le_of_lt (Nat.add_le_add_left hwindow _) hfits

/-- The annotation that decides goes on to do so within a wider window exactly if it fits. -/
theorem deciding?_widened (hle : narrow ≤ wide) {kind : AnnotationKind} {a : Annotation}
    (h : deciding? ⟨word, narrow⟩ s index kind = some a) :
    deciding? ⟨word, wide⟩ s index kind = some a ↔ Settings.Fits ⟨word, wide⟩ a := by
  obtain ⟨hown, hkind, hlatest⟩ := deciding?_eq_some_iff.1 h
  rw [deciding?_eq_some_iff, mem_ownAnnotations_widened hle hown]
  refine ⟨fun hdecides => hdecides.1, fun hfits => ⟨hfits, hkind, fun b hb hbkind => ?_⟩⟩
  rcases Nat.le_total a.offset b.offset with hbehind | hbefore
  · exact hlatest b (mem_ownAnnotations_of_behind hle hown hb hbehind) hbkind
  · exact hbefore

/-! ## The metadata of a test -/

/-- The values of a kind that two scans find. -/
theorem keepsValue_annotated (hle : narrow ≤ wide) (kind : AnnotationKind) (hskip : kind ≠ .skip)
    (hdescription : kind ≠ .description) :
    let found := fun (settings : Settings) =>
      annotated (ownedAnnotations settings s (suiteRanges s) (located settings s)) index
    KeepsValue ⟨word, narrow⟩ ⟨word, wide⟩ s index kind
      (((found ⟨word, narrow⟩).value? kind).map String.ofList)
      (((found ⟨word, wide⟩).value? kind).map String.ofList) := by
  intro found v hv
  simp only [found, value?_annotated hskip hdescription, Option.map_map] at hv ⊢
  obtain ⟨a, ha, rfl⟩ := Option.map_eq_some_iff.1 hv
  have hdecides := deciding?_widened hle ha
  refine ⟨a, ha, rfl, hdecides, fun hfits => ?_⟩
  rw [hdecides.2 hfits]
  rfl

/-- The metadata of one declaration in two scans. -/
theorem widened_metadataAt? (hle : narrow ≤ wide) {file : String} {l : Located} {m : Metadata}
    (hm : metadataAt? ⟨word, narrow⟩ file s (l, index) = some m) :
    ∃ m', metadataAt? ⟨word, wide⟩ file s (l, index) = some m' ∧
      Widened ⟨word, narrow⟩ ⟨word, wide⟩ s index m m' := by
  obtain ⟨id, hid, rfl⟩ := Option.map_eq_some_iff.1 hm
  have hid' : l.id = some id := hid
  refine ⟨metadataOf ⟨word, wide⟩ file s (docComments s.regions s.chars) l id
    (annotated (ownedAnnotations ⟨word, wide⟩ s (suiteRanges s) (located ⟨word, wide⟩ s)) index),
    by rw [metadataAt?, hid', Option.map_some], rfl, rfl,
    fun a ha => mem_ownAnnotations_widened hle ha, keepsValue_annotated hle .bug nofun nofun,
    keepsValue_annotated hle .priority nofun nofun, keepsValue_annotated hle .feature nofun nofun,
    fun hskipped => ?_⟩
  simp only [metadataOf, Bool.or_eq_true, skip_annotated] at hskipped ⊢
  by_cases hkept : ∃ a ∈ ownAnnotations ⟨word, narrow⟩ s index,
      a.kind = .skip ∧ Settings.Fits ⟨word, wide⟩ a
  · obtain ⟨a, ha, hkind, hfits⟩ := hkept
    exact .inl (.inl (.inr ⟨a, (mem_ownAnnotations_widened hle ha).2 hfits, hkind⟩))
  · -- The test is skipped by itself, by its suite, or only by annotations that do not fit.
    rcases hskipped with (hmarker | hfound) | hsuite
    · exact .inl (.inl (.inl hmarker))
    · exact .inr ⟨hfound, fun a ha hkind hfits => hkept ⟨a, ha, hkind, hfits⟩⟩
    · exact .inl (.inr hsuite)

/-- What a wider window keeps. Of two scans of one source, the one with the wider window finds the
same tests with the same titles and counts as many unidentified declarations. An annotation that
reaches a test within the narrower window does so within the wider one exactly if the sum of its
offset and the wider window does not wrap. Then the bug, the priority or the feature that it decides
stays, and a test that it skips stays skipped. -/
theorem extract_widened (word : IdWord) {narrow wide : UInt64} (hle : narrow ≤ wide) (file : String)
    (s : SourceText) :
    let near : Settings := ⟨word, narrow⟩
    let far : Settings := ⟨word, wide⟩
    (extract far file s).unidentified = (extract near file s).unidentified ∧
      (∀ name, name ∈ (extract far file s).tests ↔ name ∈ (extract near file s).tests) ∧
      ∀ name m, (extract near file s).tests[name]? = some m →
        ∃ m' index l, (extract far file s).tests[name]? = some m' ∧
          (located near s)[index]? = some l ∧ l.id.map String.ofList = some name ∧
          Widened near far s index m m' := by
  intro near far
  have hids : (identified far file s).map (·.testId) = (identified near file s).map (·.testId) := by
    rw [map_testId_identified, map_testId_identified]
    rfl
  refine ⟨rfl, fun name => ?_, fun name m hm => ?_⟩
  · simp only [mem_tests_extract, ← List.mem_map, hids]
  · rw [getElem?_tests_extract_eq_bind] at hm
    obtain ⟨⟨l, index⟩, hnamed, hm⟩ := Option.bind_eq_some_iff.1 hm
    obtain ⟨m', hm', hwidened⟩ := widened_metadataAt? hle hm
    have hl := List.mem_reverse.1 (List.mem_of_find?_eq_some hnamed)
    have hname := List.find?_some hnamed
    refine ⟨m', index, l, ?_, List.mem_zipIdx_iff_getElem?.1 hl, beq_iff_eq.1 hname, hwidened⟩
    rw [getElem?_tests_extract_eq_bind]
    exact Option.bind_eq_some_iff.2 ⟨_, hnamed, hm'⟩

/-- The annotation of a source with one test. -/
theorem annotations_bug : annotations (SourceText.ofChars "// @bug A-1\nit('TC-1')".toList).chars =
    [⟨.bug, 3, "A-1".toList⟩] :=
  annotations_eq_singleton (by decide +kernel)

/-- The bug of a test stays when the window grows to the largest one that its annotation fits. -/
theorem extract_widened_bug :
    let word : IdWord := ⟨"TC".toList⟩
    let narrow : UInt64 := 30
    let wide : UInt64 := 18446744073709551612
    let s : SourceText := .ofChars "// @bug A-1\nit('TC-1')".toList
    narrow ≤ wide ∧ ∃ m m', (extract ⟨word, narrow⟩ "a.spec.ts" s).tests["TC-1"]? = some m ∧
      (extract ⟨word, wide⟩ "a.spec.ts" s).tests["TC-1"]? = some m' ∧ m.bugId = some "A-1" ∧
      m'.bugId = some "A-1" := by
  intro word narrow wide s
  have hle : narrow ≤ wide := by decide
  have hnear : ((extract ⟨word, narrow⟩ "a.spec.ts" s).tests["TC-1"]?).map (·.bugId) =
      some (some "A-1") := by
    rw [getElem?_tests_extract_eq_bind]
    unfold metadataAt? ownedAnnotations
    rw [annotations_bug]
    decide +kernel
  obtain ⟨m, hm, hbug⟩ := Option.map_eq_some_iff.1 hnear
  obtain ⟨-, -, hkept⟩ := extract_widened word hle "a.spec.ts" s
  obtain ⟨m', index, l, hm', -, -, hwidened⟩ := hkept "TC-1" m hm
  obtain ⟨a, hdecides, -, -, hstays⟩ := hwidened.bug "A-1" hbug
  have ha := (mem_ownAnnotations_iff_owned?.1 (deciding?_eq_some_iff.1 hdecides).1).1
  rw [annotations_bug] at ha
  obtain rfl := List.mem_singleton.1 ha
  have hfits : Settings.Fits ⟨word, wide⟩ ⟨.bug, 3, "A-1".toList⟩ := by
    unfold Settings.Fits
    decide +kernel
  exact ⟨hle, m, m', hm, hm', hbug, hstays hfits⟩

/-- A wider window can lose a bug: the sum of the offset of its annotation and the window wraps. -/
theorem not_forall_bug_kept :
    ¬ ∀ (word : IdWord) (narrow wide : UInt64) (file : String) (s : SourceText) (name : String)
      (m m' : Metadata) (bug : String), 0 < narrow → narrow ≤ wide →
      (extract ⟨word, narrow⟩ file s).tests[name]? = some m →
      (extract ⟨word, wide⟩ file s).tests[name]? = some m' →
      m.bugId = some bug → m'.bugId = some bug := by
  intro h
  let word : IdWord := ⟨"TC".toList⟩
  let s : SourceText := .ofChars "// @bug A-1\nit('TC-1')".toList
  have hnear : ((extract ⟨word, 500⟩ "a.spec.ts" s).tests["TC-1"]?).map (·.bugId) =
      some (some "A-1") := by
    rw [getElem?_tests_extract_eq_bind]
    unfold metadataAt? ownedAnnotations
    rw [annotations_bug]
    decide +kernel
  have hfar : ((extract ⟨word, 18446744073709551615⟩ "a.spec.ts" s).tests["TC-1"]?).map (·.bugId) =
      some none := by
    rw [getElem?_tests_extract_eq_bind]
    unfold metadataAt? ownedAnnotations
    rw [annotations_bug]
    decide +kernel
  obtain ⟨m, hm, hbug⟩ := Option.map_eq_some_iff.1 hnear
  obtain ⟨m', hm', hlost⟩ := Option.map_eq_some_iff.1 hfar
  have hkept := h word 500 18446744073709551615 "a.spec.ts" s "TC-1" m m' "A-1" (by decide)
    (by decide) hm hm' hbug
  exact nomatch hlost.symm.trans hkept

end ManifestSync.Scan
