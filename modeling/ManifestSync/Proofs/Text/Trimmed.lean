import ManifestSync.Proofs.Text.Words

/-!
# Trimmed texts

A text is trimmed if it is not empty and trimming leaves it as it is, that is, if both its ends are
visible (`isTrimmed_iff_ends`). Trimming gives such a text or none (`trim_trim`), and so does putting
single spaces between the words of a text (`isTrimmed_normalizeBlanks`), since trimmed pieces are
trimmed when they are joined, whatever stands between them (`isTrimmed_joinWith`).
-/

namespace ManifestSync.Text

/-- A text that is not empty and has no white space at its ends. -/
structure IsTrimmed (text : List Char) : Prop where
  ne_nil : text ≠ []
  trim_eq : trim text = text

variable {text u v : List Char}

/-- The texts of a list that are kept if the empty ones are left out. -/
theorem mem_filter_not_isEmpty {texts : List (List Char)} :
    text ∈ texts.filter (!·.isEmpty) ↔ text ∈ texts ∧ text ≠ [] := by
  rw [List.mem_filter, Bool.not_eq_true', List.isEmpty_eq_false_iff]

/-- A text with visible ends is left as it is by trimming. -/
theorem trim_eq_self (hhead : ∀ c ∈ text.head?, isBlank c = false)
    (hlast : ∀ c ∈ text.getLast?, isBlank c = false) : trim text = text := by
  have hdrop : ∀ {a : List Char}, (∀ c ∈ a.head?, isBlank c = false) → a.dropWhile isBlank = a := by
    intro a ha
    cases a with
    | nil => rfl
    | cons c a => exact List.dropWhile_cons_of_neg (ne_true_of_eq_false (ha c rfl))
  rw [← List.head?_reverse] at hlast
  rw [trim, trimStartOf, hdrop hhead, trimEndOf, hdrop hlast, List.reverse_reverse]

/-- A text is left as it is by trimming, and is not empty, exactly if its ends are visible. -/
theorem isTrimmed_iff_ends : IsTrimmed text ↔ (∃ c ∈ text.head?, isBlank c = false) ∧
    ∃ c ∈ text.getLast?, isBlank c = false := by
  constructor
  · rintro ⟨hne, htrim⟩
    -- The text is what trimming leaves of it, and that has visible ends.
    obtain ⟨c, rest, hcons⟩ := List.exists_cons_of_ne_nil hne
    obtain ⟨init, d, hconcat⟩ := (List.eq_nil_or_concat text).resolve_left hne
    rw [List.concat_eq_append] at hconcat
    refine ⟨⟨c, by rw [hcons]; rfl, isBlank_of_trim_eq_cons (htrim.trans hcons)⟩, d, ?_,
      isBlank_of_trim_eq_concat (htrim.trans hconcat)⟩
    rw [hconcat, List.getLast?_concat]
    rfl
  · rintro ⟨⟨c, hc, hhead⟩, d, hd, hlast⟩
    refine ⟨?_, trim_eq_self (fun c' hc' => ?_) fun d' hd' => ?_⟩
    · rintro rfl
      exact nomatch hc
    · rwa [Option.mem_unique hc' hc]
    · rwa [Option.mem_unique hd' hd]

/-- Trimming twice is trimming once. -/
theorem trim_trim (text : List Char) : trim (trim text) = trim text := by
  refine trim_eq_self (fun c hc => ?_) fun c hc => ?_
  · obtain ⟨rest, hrest⟩ := List.head?_eq_some_iff.1 hc
    exact isBlank_of_trim_eq_cons hrest
  · obtain ⟨init, hinit⟩ := List.getLast?_eq_some_iff.1 hc
    exact isBlank_of_trim_eq_concat hinit

/-- What trimming leaves of a text, if anything, is trimmed. -/
theorem isTrimmed_trim (h : trim text ≠ []) : IsTrimmed (trim text) := ⟨h, trim_trim text⟩

/-- A visible character in front of a trimmed text. -/
theorem IsTrimmed.cons {c : Char} (hc : isBlank c = false) (h : IsTrimmed text) :
    IsTrimmed (c :: text) := by
  obtain ⟨-, d, hd, hlast⟩ := isTrimmed_iff_ends.1 h
  refine isTrimmed_iff_ends.2 ⟨⟨c, rfl, hc⟩, d, ?_, hlast⟩
  rw [List.getLast?_cons_of_ne_nil h.ne_nil]
  exact hd

/-- Two trimmed texts with any text between them. -/
theorem IsTrimmed.append (hu : IsTrimmed u) (hv : IsTrimmed v) (between : List Char) :
    IsTrimmed (u ++ (between ++ v)) := by
  obtain ⟨⟨c, hc, hhead⟩, -⟩ := isTrimmed_iff_ends.1 hu
  obtain ⟨-, d, hd, hlast⟩ := isTrimmed_iff_ends.1 hv
  refine isTrimmed_iff_ends.2 ⟨⟨c, ?_, hhead⟩, d, ?_, hlast⟩
  · rw [List.head?_append, Option.mem_def.1 hc]
    rfl
  · rw [← List.append_assoc, List.getLast?_append, Option.mem_def.1 hd]
    rfl

/-- Trimmed texts that are joined. -/
theorem isTrimmed_joinWith (separator : List Char) {pieces : List (List Char)} (hne : pieces ≠ [])
    (h : ∀ piece ∈ pieces, IsTrimmed piece) : IsTrimmed (joinWith separator pieces) := by
  induction pieces with
  | nil => exact absurd rfl hne
  | cons piece pieces ih =>
    obtain ⟨hpiece, hpieces⟩ := List.forall_mem_cons.1 h
    -- Behind the first piece comes nothing, or a separator and the others, which are trimmed.
    cases pieces with
    | nil =>
      show IsTrimmed (piece ++ [])
      rwa [List.append_nil]
    | cons next pieces => exact hpiece.append (ih (List.cons_ne_nil next pieces) hpieces) separator

/-- A word is trimmed. -/
theorem isTrimmed_of_mem_words {word : List Char} (h : word ∈ words text) : IsTrimmed word := by
  obtain ⟨hpiece, hne⟩ := mem_filter_not_isEmpty.1 h
  have hvisible := not_mem_of_mem_splitOn hpiece
  refine ⟨hne, trim_eq_self (fun c hc => ?_) fun c hc => ?_⟩
  · exact hvisible c (List.mem_of_mem_head? hc)
  · exact hvisible c (List.mem_of_mem_getLast? hc)

/-- The words of a text with single spaces between them, if there are any. -/
theorem isTrimmed_normalizeBlanks (h : normalizeBlanks text ≠ []) :
    IsTrimmed (normalizeBlanks text) := by
  refine isTrimmed_joinWith [' '] (fun hnone => h ?_) fun word => isTrimmed_of_mem_words
  rw [normalizeBlanks, hnone]
  rfl

end ManifestSync.Text
