import Mathlib.Data.List.TakeWhile
import ManifestSync.Text.Blank
import ManifestSync.Text.Word

/-!
# Trimming and splitting

Trimming takes blanks from the ends of a text and nothing else: a visible character of the text is
still there afterwards (`mem_trim`), so that a text which has one is not trimmed away. What is left
neither starts nor ends with a blank.

A text is split at the characters of a class; at each of them the pieces of both sides can be put
together (`splitOn_append_cons`).
-/

namespace ManifestSync.Text

/-- A letter or digit of ASCII is visible. -/
theorem isBlank_of_isAsciiAlphanumeric {ch : Char} (h : isAsciiAlphanumeric ch = true) :
    isBlank ch = false := by
  have hrange : (48 ≤ ch.toNat ∧ ch.toNat ≤ 57) ∨ (97 ≤ ch.toNat ∧ ch.toNat ≤ 122) ∨
      (65 ≤ ch.toNat ∧ ch.toNat ≤ 90) := by
    simp only [isAsciiAlphanumeric, isAsciiDigit, Bool.or_eq_true, Bool.and_eq_true,
      decide_eq_true_eq, Char.le_def, UInt32.le_iff_toNat_le] at h
    exact or_assoc.1 h
  simp only [isBlank, Bool.or_eq_false_iff, Bool.and_eq_false_iff, decide_eq_false_iff_not]
  omega

/-- A character outside of a class is still there when the class is trimmed at the start. -/
theorem mem_trimStartOf {p : Char → Bool} {text : List Char} {ch : Char} (h : ch ∈ text)
    (hink : p ch = false) : ch ∈ trimStartOf p text := by
  unfold trimStartOf
  induction text with
  | nil => exact h
  | cons c rest ih =>
    by_cases hc : p c = true
    · rw [List.dropWhile_cons_of_pos hc]
      rcases List.mem_cons.1 h with rfl | h
      · exact absurd (hink.symm.trans hc) Bool.false_ne_true
      · exact ih h
    · rwa [List.dropWhile_cons_of_neg hc]

/-- A visible character of a text is still there when the text is trimmed. -/
theorem mem_trim {text : List Char} {ch : Char} (h : ch ∈ text) (hink : isBlank ch = false) :
    ch ∈ trim text :=
  List.mem_reverse.2 (mem_trimStartOf (List.mem_reverse.2 (mem_trimStartOf h hink)) hink)

/-- What is trimmed at the start of a text belongs to the class. -/
theorem exists_trimStartOf (p : Char → Bool) (text : List Char) :
    ∃ w, (∀ c ∈ w, p c = true) ∧ text = w ++ trimStartOf p text :=
  ⟨text.takeWhile p, fun _ hc => List.mem_takeWhile_imp hc, List.takeWhile_append_dropWhile.symm⟩

/-- What is trimmed at the end of a text belongs to the class. -/
theorem exists_trimEndOf (p : Char → Bool) (text : List Char) :
    ∃ w, (∀ c ∈ w, p c = true) ∧ text = trimEndOf p text ++ w := by
  obtain ⟨w, hw, htext⟩ := exists_trimStartOf p text.reverse
  refine ⟨w.reverse, fun c hc => hw c (List.mem_reverse.1 hc), ?_⟩
  rw [trimEndOf, ← List.reverse_append]
  exact List.reverse_eq_iff.1 htext

/-- What is trimmed of one character at the end of a text is that character. -/
theorem exists_trimEndOf_char (ch : Char) (text : List Char) :
    ∃ n, text = trimEndOf (· == ch) text ++ List.replicate n ch := by
  obtain ⟨w, hw, htext⟩ := exists_trimEndOf (· == ch) text
  refine ⟨w.length, ?_⟩
  rwa [← List.eq_replicate_iff.2 ⟨rfl, fun c hc => beq_iff_eq.1 (hw c hc)⟩]

/-- What is trimmed at the ends of a text is blank. -/
theorem exists_trim (text : List Char) : ∃ w w', (∀ c ∈ w, isBlank c = true) ∧
    (∀ c ∈ w', isBlank c = true) ∧ text = w ++ (trim text ++ w') := by
  obtain ⟨w, hw, hstart⟩ := exists_trimStartOf isBlank text
  obtain ⟨w', hw', hend⟩ := exists_trimEndOf isBlank (trimStartOf isBlank text)
  exact ⟨w, w', hw, hw', hstart.trans (congrArg _ hend)⟩

/-- A text without a class at its start does not start with the class. -/
theorem eq_false_of_dropWhile_eq_cons {p : Char → Bool} {text rest : List Char} {ch : Char}
    (h : text.dropWhile p = ch :: rest) : p ch = false := by
  have hhead := List.head?_dropWhile_not p text
  rw [h] at hhead
  exact hhead

/-- A trimmed text does not start with a blank. -/
theorem isBlank_of_trim_eq_cons {text rest : List Char} {ch : Char} (h : trim text = ch :: rest) :
    isBlank ch = false := by
  -- What is left of a text by trimming its end is a beginning of it.
  have hbeginning : trim text <+: trimStartOf isBlank text := by
    unfold trim trimEndOf
    rw [← List.reverse_suffix, List.reverse_reverse]
    exact List.dropWhile_suffix _
  obtain ⟨behind, hbehind⟩ := hbeginning
  rw [h, List.cons_append] at hbehind
  exact eq_false_of_dropWhile_eq_cons hbehind.symm

/-- A trimmed text does not end with a blank. -/
theorem isBlank_of_trim_eq_concat {text init : List Char} {ch : Char}
    (h : trim text = init ++ [ch]) : isBlank ch = false := by
  have hreverse := congrArg List.reverse h
  unfold trim trimEndOf at hreverse
  rw [List.reverse_reverse, List.reverse_append] at hreverse
  exact eq_false_of_dropWhile_eq_cons hreverse

/-! ## Splitting -/

section
variable {p : Char → Bool}

/-- A text has at least one piece. -/
theorem splitOn_ne_nil (a : List Char) : splitOn p a ≠ [] := by
  induction a with
  | nil => exact List.cons_ne_nil _ _
  | cons c a ih =>
    unfold splitOn
    cases h : splitOn p a with
    | nil => exact List.cons_ne_nil _ _
    | cons piece pieces => dsimp only; split <;> exact List.cons_ne_nil _ _

/-- A character between the pieces of a text adds an empty piece in front of it. -/
theorem splitOn_cons_of_pos {c : Char} (hc : p c = true) (a : List Char) :
    splitOn p (c :: a) = [] :: splitOn p a := by
  obtain ⟨piece, pieces, h⟩ := List.exists_cons_of_ne_nil (splitOn_ne_nil (p := p) a)
  rw [splitOn, h]
  exact if_pos hc

/-- Another character becomes the first of the first piece. -/
theorem splitOn_cons_of_neg {c : Char} (hc : p c = false) {a piece : List Char}
    {pieces : List (List Char)} (h : splitOn p a = piece :: pieces) :
    splitOn p (c :: a) = (c :: piece) :: pieces := by
  rw [splitOn, h]
  exact if_neg (ne_true_of_eq_false hc)

/-- A text is split at a character between its pieces into the pieces of both parts. -/
theorem splitOn_append_cons (a : List Char) {c : Char} (hc : p c = true) (b : List Char) :
    splitOn p (a ++ c :: b) = splitOn p a ++ splitOn p b := by
  induction a with
  | nil => rw [List.nil_append, splitOn_cons_of_pos hc]; rfl
  | cons d a ih =>
    obtain ⟨piece, pieces, h⟩ := List.exists_cons_of_ne_nil (splitOn_ne_nil (p := p) a)
    rw [h] at ih
    rw [List.cons_append]
    cases hd : p d with
    | true => rw [splitOn_cons_of_pos hd, splitOn_cons_of_pos hd, ih, h]; rfl
    | false => rw [splitOn_cons_of_neg hd ih, splitOn_cons_of_neg hd h]; rfl

/-- A text without such characters is one piece. -/
theorem splitOn_eq_singleton {a : List Char} (ha : ∀ c ∈ a, p c = false) : splitOn p a = [a] := by
  induction a with
  | nil => rfl
  | cons c a ih =>
    have hrest := ih fun d hd => ha d (List.mem_cons_of_mem c hd)
    exact splitOn_cons_of_neg (ha c List.mem_cons_self) hrest

/-- No such character is left in a piece. -/
theorem not_mem_of_mem_splitOn {a piece : List Char} (h : piece ∈ splitOn p a) :
    ∀ c ∈ piece, p c = false := by
  induction a generalizing piece with
  | nil =>
    obtain rfl := List.mem_singleton.1 h
    exact List.forall_mem_nil _
  | cons d a ih =>
    cases hd : p d with
    | true =>
      rw [splitOn_cons_of_pos hd] at h
      rcases List.mem_cons.1 h with rfl | h
      · exact List.forall_mem_nil _
      · exact ih h
    | false =>
      obtain ⟨first, pieces, hsplit⟩ := List.exists_cons_of_ne_nil (splitOn_ne_nil (p := p) a)
      rw [splitOn_cons_of_neg hd hsplit] at h
      rw [hsplit] at ih
      rcases List.mem_cons.1 h with rfl | h
      · exact List.forall_mem_cons.2 ⟨hd, ih List.mem_cons_self⟩
      · exact ih (List.mem_cons_of_mem first h)

end

end ManifestSync.Text
