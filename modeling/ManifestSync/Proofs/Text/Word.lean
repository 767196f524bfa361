import Mathlib.Data.List.TakeWhile
import Mathlib.Tactic.SplitIfs
import ManifestSync.Proofs.Text.Blank

/-!
# Word characters

Every digit is a word character (`isWord_of_isDigit`) and no blank is one (`isBlank_of_isWord`). Beyond
ASCII both are statements about tables of ranges: each range of one table lies within a range of the
other (`allWithin`). The tables are in order, so one pass over them is enough to see it.
-/

namespace ManifestSync.Text

/-- Whether each range of the first list lies within one of the second list, where both are gone
through in order. -/
def allWithin (inner : List (Nat × Nat)) : List (Nat × Nat) → Bool
  | [] => inner.isEmpty
  | (low, high) :: outer =>
    allWithin (inner.dropWhile fun (first, last) => low ≤ first && last ≤ high) outer

/-- What lies in one of the inner ranges lies in one of the outer ones. -/
theorem inRanges_of_allWithin {inner outer : List (Nat × Nat)} (h : allWithin inner outer = true)
    {n : Nat} (hn : inRanges inner n = true) : inRanges outer n = true := by
  induction outer generalizing inner with
  | nil =>
    obtain rfl := List.isEmpty_iff.1 h
    exact hn
  | cons range outer ih =>
    obtain ⟨low, high⟩ := range
    unfold inRanges at hn
    obtain ⟨⟨first, last⟩, hmem, hrange⟩ := List.any_eq_true.1 hn
    rw [← List.takeWhile_append_dropWhile
      (p := fun x : Nat × Nat => decide (low ≤ x.1) && decide (x.2 ≤ high)) (l := inner)] at hmem
    rcases List.mem_append.1 hmem with hmem | hmem
    · -- The range is one of those within the first outer range.
      have hwithin := List.mem_takeWhile_imp hmem
      simp only [Bool.and_eq_true, decide_eq_true_eq] at hrange hwithin
      have hlow : low ≤ n := hwithin.1.trans hrange.1
      have hhigh : n ≤ high := hrange.2.trans hwithin.2
      simp [inRanges, hlow, hhigh]
    · have hrest : inRanges outer n = true := ih h (List.any_eq_true.2 ⟨_, hmem, hrange⟩)
      rw [inRanges, List.any_cons, Bool.or_eq_true]
      exact .inr hrest

/-- Every digit is a word character. -/
theorem isWord_of_isDigit {ch : Char} (h : isDigit ch = true) : isWord ch = true := by
  unfold isDigit at h
  unfold isWord
  split_ifs at h ⊢ with hascii
  · rw [isAsciiAlphanumeric, h]
    rfl
  · have hwithin : allWithin digitRanges wordRanges = true := by decide +kernel
    exact inRanges_of_allWithin hwithin h

/-- The code points beyond ASCII between those of the blanks. -/
def visibleRanges : List (Nat × Nat) :=
  [(0x86, 0x9F), (0xA1, 0x167F), (0x1681, 0x1FFF), (0x200B, 0x2027), (0x202A, 0x202E),
    (0x2030, 0x205E), (0x2060, 0x2FFF), (0x3001, 0x10FFFF)]

/-- No word character is a blank. -/
theorem isBlank_of_isWord {ch : Char} (h : isWord ch = true) : isBlank ch = false := by
  unfold isWord at h
  split_ifs at h with hascii
  · rcases Bool.or_eq_true_iff.1 h with h | h
    · exact isBlank_of_isAsciiAlphanumeric h
    · rw [beq_iff_eq.1 h]
      decide
  · have hwithin : allWithin wordRanges visibleRanges = true := by decide +kernel
    have hvisible := inRanges_of_allWithin hwithin h
    simp only [inRanges, visibleRanges, List.any_cons, List.any_nil, Bool.or_eq_true,
      Bool.and_eq_true, decide_eq_true_eq, Bool.or_false] at hvisible
    simp only [isBlank, Bool.or_eq_false_iff, Bool.and_eq_false_iff, decide_eq_false_iff_not]
    omega

/-- No blank is a word character. -/
theorem isWord_of_isBlank {ch : Char} (h : isBlank ch = true) : isWord ch = false := by
  by_contra hword
  exact Bool.false_ne_true ((isBlank_of_isWord (eq_true_of_ne_false hword)).symm.trans h)

end ManifestSync.Text
