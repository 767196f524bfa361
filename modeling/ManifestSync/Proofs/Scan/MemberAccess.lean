import Mathlib.Data.List.Find
import ManifestSync.Proofs.Scan.Declaration
import ManifestSync.Scan.Extraction

/-!
# Full stops before a declaration

`test` behind a full stop is the name of a member, and the scan passes over it. It looks at the last
visible character before the match, in whatever region that stands (`followsFullStop_iff`), whereas
a member access is a matter of code only: of the last visible character that belongs to code
(`SourceText.MemberAccess`). The two agree unless a comment or a literal that ends just before the
match misleads the scan (`SourceText.Misled`), and `discards_iff_memberAccess_iff` says that they
differ whenever one does.
-/

namespace ManifestSync

namespace Text

/-- The characters of a text, each with the offset of its first byte. -/
def withOffsets (offset : Nat) : List Char → List (Nat × Char)
  | [] => []
  | ch :: rest => (offset, ch) :: withOffsets (offset + ch.utf8Size) rest

/-- The characters of two texts, one behind the other. -/
theorem withOffsets_append (offset : Nat) (a b : List Char) :
    withOffsets offset (a ++ b) = withOffsets offset a ++ withOffsets (offset + byteLength a) b := by
  induction a generalizing offset with
  | nil => rfl
  | cons ch a ih =>
    rw [List.cons_append, withOffsets, withOffsets, List.cons_append, ih, byteLength,
      Nat.add_assoc]

/-- The characters are those of the text. -/
theorem map_snd_withOffsets (offset : Nat) (a : List Char) :
    (withOffsets offset a).map (·.2) = a := by
  induction a generalizing offset with
  | nil => rfl
  | cons ch a ih => rw [withOffsets, List.map_cons, ih]

/-- What is left of a text behind its white space starts with its first visible character. -/
theorem head?_dropWhile_isBlank (a : List Char) :
    (a.dropWhile isBlank).head? = a.find? (!isBlank ·) := by
  induction a with
  | nil => rfl
  | cons ch a ih =>
    cases hch : isBlank ch with
    | true => rw [List.dropWhile_cons_of_pos hch, ih, List.find?_cons_of_neg (by simp [hch])]
    | false => rw [List.dropWhile_cons_of_neg (by simp [hch]), List.find?_cons_of_pos (by simp [hch]),
        List.head?_cons]

/-- The offsets of a text lie within it. -/
theorem offset_of_mem_withOffsets {offset : Nat} {a : List Char} {x : Nat × Char}
    (hx : x ∈ withOffsets offset a) : offset ≤ x.1 ∧ x.1 < offset + byteLength a := by
  induction a generalizing offset with
  | nil => exact absurd hx List.not_mem_nil
  | cons ch a ih =>
    have hsize := ch.utf8Size_pos
    unfold byteLength
    rcases List.mem_cons.1 hx with rfl | hx
    · constructor
      · exact Nat.le_refl _
      · show offset < _
        omega
    · obtain ⟨hlow, hhigh⟩ := ih hx
      constructor <;> omega

end Text

namespace Scan

open Pattern

namespace SourceText

/-- The last visible character before an offset for which `p` holds, with its offset. -/
def lastInkThat? (s : SourceText) (offset : Nat) (p : Nat → Bool) : Option (Nat × Char) :=
  (Text.withOffsets 0 s.chars).reverse.find? fun (o, ch) => o < offset && !Text.isBlank ch && p o

/-- The last visible character before an offset, whatever region it stands in. -/
def lastInk? (s : SourceText) (offset : Nat) : Option (Nat × Char) :=
  s.lastInkThat? offset fun _ => true

/-- The last visible character before an offset that belongs to code. -/
def lastCodeInk? (s : SourceText) (offset : Nat) : Option (Nat × Char) :=
  s.lastInkThat? offset fun o => s.region o == .code

/-- Whether what starts at an offset is the name of a member: in code, a full stop precedes it. -/
def MemberAccess (s : SourceText) (offset : Nat) : Prop :=
  (s.lastCodeInk? offset).map (·.2) = some '.'

/-- Whether a comment or a literal passes for the end of the code before an offset, and is wrong
about the full stop. -/
def Misled (s : SourceText) (offset : Nat) : Prop :=
  ∃ o ch, s.lastInk? offset = some (o, ch) ∧ s.region o ≠ .code ∧ ¬ (ch = '.' ↔ s.MemberAccess offset)

instance (s : SourceText) (offset : Nat) : Decidable (s.MemberAccess offset) :=
  inferInstanceAs (Decidable (_ = _))

/-- What stands last of all and belongs to code stands last in code. -/
theorem lastCodeInk?_of_lastInk? {s : SourceText} {offset o : Nat} {ch : Char}
    (h : s.lastInk? offset = some (o, ch)) (hcode : s.region o = .code) :
    s.lastCodeInk? offset = some (o, ch) := by
  unfold lastInk? lastInkThat? at h
  unfold lastCodeInk? lastInkThat?
  rw [List.find?_eq_some_iff_append] at h ⊢
  obtain ⟨hink, before, after, hsplit, hbefore⟩ := h
  refine ⟨by simpa [hcode] using hink, before, after, hsplit, ?_⟩
  intro x hx
  have := hbefore x hx
  simp only [Bool.and_true, Bool.not_eq_true', Bool.and_eq_false_iff] at this ⊢
  exact .inl this

/-- Where there is no visible character there is none in code. -/
theorem lastCodeInk?_of_lastInk?_none {s : SourceText} {offset : Nat}
    (h : s.lastInk? offset = none) : s.lastCodeInk? offset = none := by
  unfold lastInk? lastInkThat? at h
  unfold lastCodeInk? lastInkThat?
  rw [List.find?_eq_none] at h ⊢
  intro x hx
  have := h x hx
  simp only [Bool.and_true, Bool.not_eq_true, Bool.and_eq_false_iff] at this ⊢
  exact .inl this

/-- A comment or a literal misleads exactly if the last visible character of all is wrong about the
full stop. -/
theorem misled_iff {s : SourceText} {offset : Nat} :
    s.Misled offset ↔
      ¬ ((s.lastInk? offset).map (·.2) = some '.' ↔ s.MemberAccess offset) := by
  cases hink : s.lastInk? offset with
  | none =>
    have hcode := lastCodeInk?_of_lastInk?_none hink
    simp [Misled, MemberAccess, hink, hcode]
  | some x =>
    obtain ⟨o, ch⟩ := x
    rw [Option.map_some, Option.some.injEq]
    constructor
    · rintro ⟨o', ch', hink', -, hwrong⟩
      rw [hink] at hink'
      obtain ⟨rfl, rfl⟩ := Prod.mk.inj (Option.some.inj hink')
      exact hwrong
    · intro hwrong
      refine ⟨o, ch, hink, ?_, hwrong⟩
      intro hregion
      apply hwrong
      unfold MemberAccess
      rw [lastCodeInk?_of_lastInk? hink hregion, Option.map_some, Option.some.injEq]

instance (s : SourceText) (offset : Nat) : Decidable (s.Misled offset) :=
  decidable_of_iff _ misled_iff.symm

end SourceText

/-- A match follows a full stop exactly if the last visible character before it is one. -/
theorem followsFullStop_iff {s : SourceText} {m : Match} (hm : m.start.IsIn s.chars) :
    followsFullStop m = true ↔ (s.lastInk? m.start.offset).map (·.2) = some '.' := by
  obtain ⟨htext, hoffset⟩ := hm
  unfold followsFullStop SourceText.lastInk? SourceText.lastInkThat?
  -- Behind the match no character has an offset before it; in front of it all have.
  have hrest : ((Text.withOffsets (0 + Text.byteLength m.start.behind.reverse)
      m.start.rest).reverse.find? fun (o, ch) =>
        o < m.start.offset && !Text.isBlank ch && true) = none := by
    rw [List.find?_eq_none]
    intro x hx
    have hlow := (Text.offset_of_mem_withOffsets (List.mem_reverse.1 hx)).1
    rw [Text.byteLength_reverse, ← hoffset] at hlow
    have hge : ¬ x.1 < m.start.offset := by omega
    simp [hge]
  have hbehind : ((Text.withOffsets 0 m.start.behind.reverse).reverse.find? fun (o, ch) =>
        o < m.start.offset && !Text.isBlank ch && true) =
      (Text.withOffsets 0 m.start.behind.reverse).reverse.find? ((!Text.isBlank ·) ∘ Prod.snd) := by
    apply List.find?_congr
    intro x hx
    have hhigh := (Text.offset_of_mem_withOffsets (List.mem_reverse.1 hx)).2
    rw [Text.byteLength_reverse, ← hoffset] at hhigh
    have hlt : x.1 < m.start.offset := by omega
    simp [hlt]
  rw [← htext, Text.withOffsets_append, List.reverse_append, List.find?_append, hrest,
    Option.none_or, hbehind, ← List.find?_map, List.map_reverse, Text.map_snd_withOffsets,
    List.reverse_reverse, Text.head?_dropWhile_isBlank, beq_iff_eq]

/-- What a full stop before it can turn into the name of a member. -/
inductive Opening where
  /-- The declaration of a test. -/
  | test
  /-- The opening of a disabled suite. -/
  | suite
  deriving DecidableEq, Repr

namespace Opening

/-- The pattern of an opening. -/
def pattern : Opening → Pattern
  | test => declarationPattern
  | suite => disabledSuitePattern

/-- The offsets where the pattern of an opening is found. -/
def found (kind : Opening) (source : List Char) : List Nat :=
  (kind.pattern.findAll source).map (·.start.offset)

/-- The offsets of the openings that the scan reports. -/
def reported (kind : Opening) (source : List Char) : List Nat :=
  match kind with
  | test => (declarations source).map (·.start)
  | suite => (disabledSuites source).map (·.1)

/-- An opening is reported exactly if a match is found there that does not follow a full stop. -/
theorem mem_reported_iff {kind : Opening} {source : List Char} {offset : Nat} :
    offset ∈ kind.reported source ↔
      ∃ m ∈ kind.pattern.findAll source, m.start.offset = offset ∧ followsFullStop m = false := by
  cases kind with
  | test => exact List.mem_map.trans exists_declaration_iff
  | suite => exact List.mem_map.trans exists_disabledSuite_iff

/-- The scan passes over an opening that is found exactly if the last visible character before it
is a full stop, in whatever region. -/
theorem not_mem_reported_iff {kind : Opening} {s : SourceText} {offset : Nat}
    (hfound : offset ∈ kind.found s.chars) :
    offset ∉ kind.reported s.chars ↔ (s.lastInk? offset).map (·.2) = some '.' := by
  obtain ⟨m, hm, rfl⟩ := List.mem_map.1 hfound
  rw [← followsFullStop_iff (of_mem_findAll hm).1, mem_reported_iff, not_iff_comm]
  constructor
  · intro hstop
    exact ⟨m, hm, rfl, Bool.eq_false_of_not_eq_true hstop⟩
  · rintro ⟨m', hm', hoffset, hstop⟩
    rw [← eq_of_mem_findAll hm' hm hoffset, hstop]
    exact Bool.false_ne_true

/-- The scan passes over an opening for being a member exactly if it is one, unless a comment or a
literal just before it misleads the scan; then the scan passes over what is no member, or reports
what is one. -/
theorem discards_iff_memberAccess_iff (kind : Opening) (s : SourceText) (offset : Nat)
    (hfound : offset ∈ kind.found s.chars) :
    (offset ∉ kind.reported s.chars ↔ s.MemberAccess offset) ↔ ¬ s.Misled offset := by
  rw [SourceText.misled_iff, not_not, not_mem_reported_iff hfound]

/-- The scan passes over the method `test` of a regular expression for what it is. -/
theorem discards_iff_memberAccess_method :
    13 ∈ test.found "const ok = x.test('TC-7');".toList ∧
      (13 ∉ test.reported "const ok = x.test('TC-7');".toList ↔
        (SourceText.ofChars "const ok = x.test('TC-7');".toList).MemberAccess 13) :=
  ⟨by decide +kernel,
    (discards_iff_memberAccess_iff test (.ofChars "const ok = x.test('TC-7');".toList) 13
      (by decide +kernel)).2 (by decide +kernel)⟩

/-- A test is not always reported where it is no member: the comment in front of it ends with a full
stop. -/
theorem not_forall_discards_iff_memberAccess :
    ¬ ∀ (kind : Opening) (s : SourceText) (offset : Nat), offset ∈ kind.found s.chars →
      s.region offset = .code →
      (offset ∉ kind.reported s.chars ↔ s.MemberAccess offset) := by
  intro h
  have hmember := (h .test (.ofChars "// Done.\ntest('TC-1: a', f)".toList) 9 (by decide +kernel)
    (by decide +kernel)).1 (by decide +kernel)
  revert hmember
  decide +kernel

end Opening

end Scan

end ManifestSync
