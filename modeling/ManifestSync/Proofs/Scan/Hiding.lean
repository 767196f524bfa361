import ManifestSync.Proofs.Scan.Annotation
import ManifestSync.Proofs.Scan.Extraction
import ManifestSync.Proofs.Scan.MemberAccess

/-!
# What text in literals and comments can hide

The scan first finds the matches of a pattern in the whole text, from left to right and without
overlap, and only then asks in which region each of them starts. A match that does not count may
therefore run over the start of one that does.

`declared_and_harvested_iff` says exactly when that happens to the declaration of a test and to an
annotation: for tests there is also the full stop of `MemberAccess`, and among annotations only a
description can be hidden.
-/

namespace ManifestSync.Scan

open Pattern

variable (settings : Settings) (file : String) (s : SourceText) (c : Cursor) (offset : Nat)

/-! ## Tests -/

/-- At a position there is the declaration of a test in code, as far as the text itself tells. -/
structure RealTest : Prop where
  /-- The position is one of the text. -/
  isIn : c.IsIn s.chars
  /-- The declaration pattern matches there. -/
  isMatch : (declarationPattern.matchAt? c).isSome = true
  /-- The declaration starts in code. -/
  inCode : s.region c.offset = .code
  /-- It is not the name of a member. -/
  notMember : ¬ s.MemberAccess c.offset
  /-- It does not start within an earlier declaration in code. -/
  outside : ∀ d ∈ declarations s.chars, s.region d.start = .code →
    ¬ (d.start < c.offset ∧ c.offset < d.titleEnd)

/-- Extraction has a declaration at an offset and counts it, as a test under its identifier or among
the unidentified ones. -/
def Declares : Prop :=
  ∃ l ∈ located settings s, l.declaration.start = offset ∧
    match l.id with
    | some id => String.ofList id ∈ (extract settings file s).tests
    | none => 0 < (extract settings file s).unidentified

/-- A declaration at an offset is hidden: a comment or a literal just before it passes for a member
access, or a match that is no declaration in code runs over it. -/
def TestHidden : Prop :=
  s.Misled offset ∨ ∃ m ∈ declarationPattern.findAll s.chars, m.Covers offset ∧
    (s.region m.start.offset ≠ .code ∨ followsFullStop m = true)

instance : Decidable (TestHidden s offset) :=
  inferInstanceAs (Decidable (_ ∨ _))

/-- Every located declaration is counted. -/
theorem declares_iff :
    Declares settings file s offset ↔
      s.region offset = .code ∧ ∃ d ∈ declarations s.chars, d.start = offset := by
  unfold Declares
  constructor
  · rintro ⟨l, hl, rfl, -⟩
    obtain ⟨d, hd, rfl⟩ := List.mem_map.1 hl
    obtain ⟨hd, hcode⟩ := List.mem_filter.1 hd
    exact ⟨beq_iff_eq.1 hcode, d, hd, rfl⟩
  · rintro ⟨hcode, d, hd, rfl⟩
    have hl : locate settings s (suiteRanges s) d ∈ located settings s :=
      List.mem_map_of_mem (List.mem_filter.2 ⟨hd, beq_iff_eq.2 hcode⟩)
    refine ⟨_, hl, rfl, ?_⟩
    cases hid : (locate settings s (suiteRanges s) d).id with
    | some id =>
      show String.ofList id ∈ (extract settings file s).tests
      have hmem : String.ofList id ∈ (identified settings file s).map (·.testId) := by
        rw [map_testId_identified, List.mem_filterMap]
        exact ⟨_, hl, by rw [hid, Option.map_some]⟩
      obtain ⟨m, hm, htestId⟩ := List.mem_map.1 hmem
      exact (mem_tests_extract settings file s).2 ⟨m, hm, htestId⟩
    | none =>
      show 0 < (extract settings file s).unidentified
      rw [unidentified_extract, List.countP_pos_iff]
      exact ⟨_, hl, by rw [hid]; rfl⟩

variable {s c}

/-- A full stop before a declaration that is no member is one of a comment or a literal. -/
theorem RealTest.misled_iff (h : RealTest s c) {m : Match} (hm : m.start = c) :
    s.Misled c.offset ↔ followsFullStop m = true := by
  have hin : m.start.IsIn s.chars := hm ▸ h.isIn
  rw [SourceText.misled_iff, followsFullStop_iff hin, hm]
  simp only [h.notMember, iff_false, not_not]

/-- A match that is found and runs over a declaration outside of all others is no declaration in
code. -/
theorem RealTest.not_declaration_of_covers (h : RealTest s c) {m : Match}
    (hm : m ∈ declarationPattern.findAll s.chars) (hcovers : m.Covers c.offset) :
    s.region m.start.offset ≠ .code ∨ followsFullStop m = true := by
  by_contra hnot
  obtain ⟨hcode, hstop⟩ := not_or.1 hnot
  obtain ⟨d, hread, hstart, htitleEnd⟩ := exists_ofMatch? (of_mem_findAll hm).2
  have hd : d ∈ declarations s.chars :=
    mem_declarations_iff.2 ⟨m, hm, Bool.eq_false_of_not_eq_true hstop, hread⟩
  apply h.outside d hd
  · rw [hstart]
    exact not_not.1 hcode
  · rw [hstart, htitleEnd]
    exact hcovers

/-- A declaration in code is counted exactly if nothing hides it. -/
theorem RealTest.declares_iff (h : RealTest s c) :
    Declares settings file s c.offset ↔ ¬ TestHidden s c.offset := by
  obtain ⟨m, hat⟩ := Option.isSome_iff_exists.1 h.isMatch
  have hstart := (moves_of_matchAt? hat).1
  have hrest := rest_ne_nil_of_matchAt? rfl hat
  unfold TestHidden
  rw [Scan.declares_iff, exists_declaration_iff, h.misled_iff hstart, not_or]
  constructor
  · rintro ⟨-, m', hm', hoffset, hstop⟩
    obtain ⟨hin, hat'⟩ := of_mem_findAll hm'
    -- The match found at the offset is the one at the position.
    rw [hin.eq_of_offset_eq h.isIn hoffset, hat] at hat'
    obtain rfl := Option.some.inj hat'
    refine ⟨by rw [hstop]; exact Bool.false_ne_true, ?_⟩
    rintro ⟨m', hm'', hcovers, -⟩
    exact (mem_findAll_iff h.isIn hrest hat).1 hm' ⟨m', hm'', hcovers⟩
  · rintro ⟨hstop, hfree⟩
    refine ⟨h.inCode, m, ?_, by rw [hstart], Bool.eq_false_of_not_eq_true hstop⟩
    rw [mem_findAll_iff h.isIn hrest hat]
    rintro ⟨m', hm', hcovers⟩
    exact hfree ⟨m', hm', hcovers, h.not_declaration_of_covers hm' hcovers⟩

/-! ## Annotations -/

variable (s c)

/-- At a position there is an annotation where its kind counts. -/
structure RealAnnotation (a : Annotation) : Prop where
  /-- The position is one of the text. -/
  isIn : c.IsIn s.chars
  /-- The pattern of its kind matches there and reads as the annotation. -/
  reads : annotationAt? a.kind c = some a
  /-- It stands where annotations of its kind count. -/
  accepted : accepts s a = true
  /-- It does not start within an earlier match of its kind that counts. -/
  outside : ∀ m ∈ a.kind.pattern.findAll s.chars, accepts s (annotationOf a.kind m) = true →
    ¬ m.Covers c.offset

/-- The annotations that extraction goes on with, to look for the test of each. -/
def harvested : List Annotation := (annotations s.chars).filter (accepts s)

/-- An annotation of a kind at an offset is hidden: it is a description, and another one that does not
count runs over it. -/
def AnnotationHidden (kind : AnnotationKind) : Prop :=
  kind = .description ∧ ∃ m ∈ kind.pattern.findAll s.chars, m.Covers offset ∧
    accepts s (annotationOf kind m) = false

instance (kind : AnnotationKind) : Decidable (AnnotationHidden s offset kind) :=
  inferInstanceAs (Decidable (_ ∧ _))

variable {s c}

/-- An annotation that counts is harvested exactly if nothing hides it. -/
theorem RealAnnotation.mem_harvested_iff {a : Annotation} (h : RealAnnotation s c a) :
    a ∈ harvested s ↔ ¬ AnnotationHidden s c.offset a.kind := by
  unfold harvested AnnotationHidden
  rw [List.mem_filter, mem_annotations_iff_not_covered h.isIn h.reads]
  constructor
  · rintro ⟨hfree, -⟩ ⟨-, m, hm, hcovers, -⟩
    exact hfree ⟨m, hm, hcovers⟩
  · intro hnot
    refine ⟨?_, h.accepted⟩
    rintro ⟨m, hm, hcovers⟩
    by_cases hkind : a.kind = .description
    · cases haccepts : accepts s (annotationOf a.kind m) with
      | true => exact h.outside m hm haccepts hcovers
      | false => exact hnot ⟨hkind, m, hm, hcovers, haccepts⟩
    · exact not_covers_of_kind_ne h.isIn h.reads hkind hm hcovers

/-! ## Both together -/

variable (s c)

/-- A declaration in code is counted, and an annotation that counts is harvested, exactly if nothing
hides it. -/
theorem declared_and_harvested_iff :
    (RealTest s c → (Declares settings file s c.offset ↔ ¬ TestHidden s c.offset)) ∧
      ∀ a, RealAnnotation s c a → (a ∈ harvested s ↔ ¬ AnnotationHidden s c.offset a.kind) :=
  ⟨fun h => h.declares_iff settings file, fun _ h => h.mem_harvested_iff⟩

/-- A test with an annotation in the comment before it, neither of which is hidden. -/
theorem declared_and_harvested_iff_annotated :
    Declares ⟨⟨"TC".toList⟩, 500⟩ "a.spec.ts" (.ofChars "/* @bug X-1 */ it('TC-1')".toList) 15 ∧
      ⟨.bug, 3, "X-1".toList⟩ ∈ harvested (.ofChars "/* @bug X-1 */ it('TC-1')".toList) := by
  constructor
  · refine ((declared_and_harvested_iff _ _ (.ofChars "/* @bug X-1 */ it('TC-1')".toList)
      ⟨15, "/* @bug X-1 */ ".toList.reverse, "it('TC-1')".toList⟩).1 ?_).2 (by decide +kernel)
    exact ⟨by decide +kernel, by decide +kernel, by decide +kernel, by decide +kernel,
      by decide +kernel⟩
  · refine ((declared_and_harvested_iff ⟨⟨"TC".toList⟩, 500⟩ "a.spec.ts"
      (.ofChars "/* @bug X-1 */ it('TC-1')".toList)
      ⟨3, "/* ".toList.reverse, "@bug X-1 */ it('TC-1')".toList⟩).2
        ⟨.bug, 3, "X-1".toList⟩ ?_).2 (by decide +kernel)
    exact ⟨by decide +kernel, by decide +kernel, by decide +kernel, by decide +kernel⟩

/-- Text in literals and comments can hide both: a title that opens in a comment runs over the line
behind it, and a description that opens in a literal over a comment. -/
theorem not_forall_declared_and_harvested :
    (¬ ∀ (settings : Settings) (file : String) (s : SourceText) (c : Cursor),
      RealTest s c → Declares settings file s c.offset) ∧
    ¬ ∀ (s : SourceText) (c : Cursor) (a : Annotation),
      RealAnnotation s c a → a ∈ harvested s := by
  constructor
  · intro h
    have hdeclared := h ⟨⟨"TC".toList⟩, 500⟩ "a.spec.ts"
      (.ofChars "// it(`\ntest('TC-1: a', f)`".toList)
      ⟨8, "// it(`\n".toList.reverse, "test('TC-1: a', f)`".toList⟩
      ⟨by decide +kernel, by decide +kernel, by decide +kernel, by decide +kernel,
        by decide +kernel⟩
    obtain ⟨-, d, hd, hstart⟩ := (declares_iff _ _ _ _).1 hdeclared
    revert d
    decide +kernel
  · intro h
    have hharvested := h (.ofChars "f('@description x') // @description real".toList)
      ⟨23, "f('@description x') // ".toList.reverse, "@description real".toList⟩
      ⟨.description, 23, "real".toList⟩
      ⟨by decide +kernel, by decide +kernel, by decide +kernel, by decide +kernel⟩
    revert hharvested
    decide +kernel

end ManifestSync.Scan
