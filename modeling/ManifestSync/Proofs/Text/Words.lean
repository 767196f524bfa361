import Mathlib.Data.List.Basic
import ManifestSync.Proofs.Text.Blank
import ManifestSync.Scan.DocComment

/-!
# Words and single spaces

The words of a text are the pieces between its blanks that are not empty. Blanks at its ends make no
difference (`words_trim`), and elsewhere as many of them as there are become one space
(`normalizeBlanks_append`), so that the words of a text stay what they are (`words_normalizeBlanks`).
-/

namespace ManifestSync.Text

/-! ## Words -/

/-- A text and a blank in front of another text: the words of both. -/
theorem words_append_cons (a : List Char) {c : Char} (hc : isBlank c = true) (b : List Char) :
    words (a ++ c :: b) = words a ++ words b := by
  rw [words, splitOn_append_cons a hc, List.filter_append]
  rfl

/-- Blanks in front of a text add no words. -/
theorem words_blanks_append {w : List Char} (hw : ∀ c ∈ w, isBlank c = true) (a : List Char) :
    words (w ++ a) = words a := by
  induction w with
  | nil => rfl
  | cons c w ih =>
    obtain ⟨hc, hw⟩ := List.forall_mem_cons.1 hw
    rw [← ih hw]
    exact words_append_cons [] hc (w ++ a)

/-- Blanks between two texts: the words of both. -/
theorem words_append {w : List Char} (hne : w ≠ []) (hw : ∀ c ∈ w, isBlank c = true)
    (a b : List Char) : words (a ++ (w ++ b)) = words a ++ words b := by
  obtain ⟨c, w, rfl⟩ := List.exists_cons_of_ne_nil hne
  obtain ⟨hc, hw⟩ := List.forall_mem_cons.1 hw
  rw [List.cons_append, words_append_cons a hc, words_blanks_append hw]

/-- Blanks behind a text add no words. -/
theorem words_append_blanks (a : List Char) {w : List Char} (hw : ∀ c ∈ w, isBlank c = true) :
    words (a ++ w) = words a := by
  by_cases hne : w = []
  · rw [hne, List.append_nil]
  · have happend := words_append hne hw a []
    rw [List.append_nil] at happend
    exact happend.trans (List.append_nil _)

/-- A trimmed text has the words of the text. -/
theorem words_trim (text : List Char) : words (trim text) = words text := by
  obtain ⟨w, w', hw, hw', htext⟩ := exists_trim text
  calc words (trim text)
      = words (trim text ++ w') := (words_append_blanks _ hw').symm
    _ = words (w ++ (trim text ++ w')) := (words_blanks_append hw _).symm
    _ = words text := congrArg words htext.symm

/-- A text without blanks is one word. -/
theorem words_eq_singleton {w : List Char} (hne : w ≠ []) (hw : ∀ c ∈ w, isBlank c = false) :
    words w = [w] := by
  rw [words, splitOn_eq_singleton hw]
  cases w with
  | nil => exact absurd rfl hne
  | cons c w => rfl

/-- A word of a text has itself as its only word. -/
theorem words_of_mem_words {text word : List Char} (h : word ∈ words text) :
    words word = [word] := by
  obtain ⟨hpiece, hne⟩ := List.mem_filter.1 h
  exact words_eq_singleton (by rintro rfl; exact nomatch hne) (not_mem_of_mem_splitOn hpiece)

/-- The first word of a text that starts with a visible character ends at the first blank. -/
theorem words_cons_splitAtBlank {c : Char} (hc : isBlank c = false) (text : List Char) :
    words (c :: text) = (c :: (splitAtBlank text).1) :: words (splitAtBlank text).2 := by
  have htext : text = text.takeWhile (!isBlank ·) ++ text.dropWhile (!isBlank ·) :=
    List.takeWhile_append_dropWhile.symm
  have hvisible : ∀ d ∈ c :: text.takeWhile (!isBlank ·), isBlank d = false :=
    List.forall_mem_cons.2 ⟨hc, fun d hd => by simpa using List.mem_takeWhile_imp hd⟩
  have hword := words_eq_singleton (List.cons_ne_nil _ _) hvisible
  unfold splitAtBlank
  dsimp only
  -- Behind the first word there is nothing, or a blank and the rest.
  cases hgap : text.dropWhile (!isBlank ·) with
  | nil =>
    rw [hgap, List.append_nil] at htext
    rw [← htext] at hword ⊢
    exact hword
  | cons d rest =>
    have hd : isBlank d = true := by simpa using eq_false_of_dropWhile_eq_cons hgap
    calc words (c :: text)
        = words ((c :: text.takeWhile (!isBlank ·)) ++ d :: rest) := by
          rw [List.cons_append, ← hgap, ← htext]
      _ = words (c :: text.takeWhile (!isBlank ·)) ++ words rest := words_append_cons _ hd rest
      _ = (c :: text.takeWhile (!isBlank ·)) :: words rest := by
          rw [hword]
          rfl

/-- Texts that are joined by spaces have the words of all of them. -/
theorem words_joinWith (pieces : List (List Char)) :
    words (joinWith [' '] pieces) = pieces.flatMap words := by
  induction pieces with
  | nil => rfl
  | cons piece pieces ih =>
    cases pieces with
    | nil => exact (congrArg words (List.append_nil piece)).trans (List.append_nil _).symm
    | cons next pieces =>
      rw [List.flatMap_cons, ← ih]
      exact words_append_cons piece (by decide) _

/-- A text that does not start with a blank has a word. -/
theorem words_ne_nil {c : Char} (hc : isBlank c = false) (a : List Char) : words (c :: a) ≠ [] := by
  rw [words_cons_splitAtBlank hc]
  exact List.cons_ne_nil _ _

/-! ## Single spaces -/

/-- A trimmed text and the text have the same words with single spaces between them. -/
theorem normalizeBlanks_trim (text : List Char) :
    normalizeBlanks (trim text) = normalizeBlanks text := by
  rw [normalizeBlanks, words_trim, normalizeBlanks]

/-- With single spaces between them the words stay the same. -/
theorem words_normalizeBlanks (text : List Char) : words (normalizeBlanks text) = words text :=
  calc words (normalizeBlanks text)
      = (words text).flatMap words := words_joinWith _
    _ = (words text).flatMap ([·]) := List.flatMap_congr fun _ => words_of_mem_words
    _ = words text := List.flatMap_singleton' _

/-- A word stays as it is. -/
theorem normalizeBlanks_word {w : List Char} (hne : w ≠ []) (hw : ∀ c ∈ w, isBlank c = false) :
    normalizeBlanks w = w := by
  rw [normalizeBlanks, words_eq_singleton hne hw]
  exact List.append_nil w

/-- Between a word and other words there is one space. -/
theorem normalizeBlanks_append {w blanks z : List Char} (hne : w ≠ [])
    (hw : ∀ c ∈ w, isBlank c = false) (hne' : blanks ≠ [])
    (hblanks : ∀ c ∈ blanks, isBlank c = true) (hz : words z ≠ []) :
    normalizeBlanks (w ++ (blanks ++ z)) = w ++ ' ' :: normalizeBlanks z := by
  obtain ⟨word, more, hmore⟩ := List.exists_cons_of_ne_nil hz
  rw [normalizeBlanks, words_append hne' hblanks, words_eq_singleton hne hw, normalizeBlanks, hmore]
  rfl

end ManifestSync.Text
