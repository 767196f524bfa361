import Mathlib.Computability.Language
import ManifestSync.Proofs.Pattern.Position

/-!
# The language of a pattern

`language` are the texts that a pattern describes, without the conditions that it has on what stands
around them. What a match reads is one of them (`exists_mem_language`). A plain pattern has no such
conditions, and then every text of the language is read wherever it stands
(`mem_ends_of_mem_language`).

Both are inductions over the pattern. For repetitions the first is `mem_repeated`: what several steps
read is a text of the star. For the second the repetitions are written as a list in which those that
begin with a step come first (`repeated_succ`); there are enough of them, since each step reads at
least one character.
-/

namespace ManifestSync.Pattern

open Computability

/-- The texts that a pattern describes, whatever stands around them. -/
def language : Pattern → Language Char
  | .one p => {w | ∃ c, p c = true ∧ w = [c]}
  | .seq a b => a.language * b.language
  | .alt a b => a.language + b.language
  | .many a => a.language∗
  | .group _ a => a.language
  | _ => 1

/-- Whether a pattern asks for nothing around the text and keeps no span. -/
def isPlain : Pattern → Bool
  | .empty => true
  | .one _ => true
  | .seq a b => a.isPlain && b.isPlain
  | .alt a b => a.isPlain && b.isPlain
  | .many a => a.isPlain
  | _ => false

/-- A given text is a plain pattern. -/
theorem isPlain_text (w : List Char) : (text w).isPlain = true := by
  induction w with
  | nil => rfl
  | cons ch w ih => exact ih

/-! ## Some languages -/

/-- The language of a given text is the text. -/
theorem mem_language_text {u w : List Char} : w ∈ (text u).language ↔ w = u := by
  induction u generalizing w with
  | nil => exact Language.mem_one w
  | cons c u ih =>
    constructor
    · intro hw
      obtain ⟨_, ⟨ch, hch, rfl⟩, v, hv, rfl⟩ := Language.mem_mul.1 hw
      rw [beq_iff_eq.1 hch, ih.1 hv]
      rfl
    · rintro rfl
      exact Language.mem_mul.2 ⟨[c], ⟨c, beq_self_eq_true c, rfl⟩, u, ih.2 rfl, rfl⟩

/-- The language of a character that may be missing. -/
theorem mem_language_maybe_char {c : Char} {w : List Char} :
    w ∈ (maybe (char c)).language ↔ w = [c] ∨ w = [] := by
  constructor
  · rintro (⟨ch, hch, rfl⟩ | hw)
    · exact .inl (by rw [beq_iff_eq.1 hch])
    · exact .inr hw
  · rintro (rfl | rfl)
    · exact .inl ⟨c, beq_self_eq_true c, rfl⟩
    · exact .inr Language.nil_mem_one

/-- The language of the repetitions of a class are the texts that consist of it. -/
theorem mem_language_many_one {p : Char → Bool} {w : List Char} :
    w ∈ (many (one p)).language ↔ ∀ ch ∈ w, p ch = true := by
  constructor
  · intro hw
    obtain ⟨words, rfl, hwords⟩ := Language.mem_kstar.1 hw
    intro ch hch
    obtain ⟨word, hword, hch⟩ := List.mem_flatten.1 hch
    obtain ⟨ch', hch', rfl⟩ := hwords word hword
    rwa [List.mem_singleton.1 hch]
  · intro hw
    refine Language.mem_kstar.2 ⟨w.map fun ch => [ch], ?_, ?_⟩
    · induction w with
      | nil => rfl
      | cons ch w ih =>
        rw [List.map_cons, List.flatten_cons, ← ih fun ch h => hw ch (List.mem_cons_of_mem _ h)]
        rfl
    · intro word hword
      obtain ⟨ch, hch, rfl⟩ := List.mem_map.1 hword
      exact ⟨ch, hw ch hch, rfl⟩

/-- The language of one repetition or more of a class. -/
theorem mem_language_oneOrMore_one {p : Char → Bool} {w : List Char} :
    w ∈ (oneOrMore (one p)).language ↔ w ≠ [] ∧ ∀ ch ∈ w, p ch = true := by
  constructor
  · intro hw
    obtain ⟨_, ⟨ch, hch, rfl⟩, v, hv, rfl⟩ := Language.mem_mul.1 hw
    exact ⟨List.cons_ne_nil _ _, List.forall_mem_cons.2 ⟨hch, mem_language_many_one.1 hv⟩⟩
  · rintro ⟨hne, hw⟩
    obtain ⟨ch, v, rfl⟩ := List.exists_cons_of_ne_nil hne
    obtain ⟨hch, hv⟩ := List.forall_mem_cons.1 hw
    exact Language.mem_mul.2 ⟨[ch], ⟨ch, hch, rfl⟩, v, mem_language_many_one.2 hv, rfl⟩

/-! ## What a match reads -/

/-- What stands at the end of a match is read: it is a text of the language. -/
theorem exists_mem_language {p : Pattern} {r t : Reached} (ht : t ∈ p.ends r) :
    ∃ w ∈ p.language, r.cursor.Moves w t.cursor := by
  induction p generalizing r t with
  | empty =>
    obtain rfl := List.mem_singleton.1 ht
    exact ⟨[], Language.nil_mem_one, .refl _⟩
  | one q =>
    obtain ⟨c, hc, hmoves, -⟩ := mem_ends_one ht
    exact ⟨[c], ⟨c, hc, rfl⟩, hmoves⟩
  | boundary =>
    obtain rfl := eq_of_mem_ite ht
    exact ⟨[], Language.nil_mem_one, .refl _⟩
  | atStart =>
    obtain rfl := eq_of_mem_ite ht
    exact ⟨[], Language.nil_mem_one, .refl _⟩
  | atEnd =>
    obtain rfl := eq_of_mem_ite ht
    exact ⟨[], Language.nil_mem_one, .refl _⟩
  | seq a b iha ihb =>
    obtain ⟨s, hs, ht⟩ := mem_ends_append.1 ht
    obtain ⟨v, hv, hmoves⟩ := iha hs
    obtain ⟨w, hw, hmoves'⟩ := ihb ht
    exact ⟨v ++ w, Language.append_mem_mul hv hw, hmoves.trans hmoves'⟩
  | alt a b iha ihb =>
    rcases List.mem_append.1 ht with ht | ht
    · obtain ⟨w, hw, hmoves⟩ := iha ht
      exact ⟨w, .inl hw, hmoves⟩
    · obtain ⟨w, hw, hmoves⟩ := ihb ht
      exact ⟨w, .inr hw, hmoves⟩
  | many a ih =>
    -- Several steps read a text of the star.
    have hrefl (r : Reached) : ∃ w ∈ a.language∗, r.cursor.Moves w r.cursor :=
      ⟨[], Language.nil_mem_kstar _, .refl _⟩
    have htrans {r s t : Reached} (h : ∃ w ∈ a.language∗, r.cursor.Moves w s.cursor)
        (h' : ∃ w ∈ a.language∗, s.cursor.Moves w t.cursor) :
        ∃ w ∈ a.language∗, r.cursor.Moves w t.cursor := by
      obtain ⟨v, hv, hmoves⟩ := h
      obtain ⟨w, hw, hmoves'⟩ := h'
      have happend := Language.append_mem_mul hv hw
      rw [kstar_mul_kstar] at happend
      exact ⟨v ++ w, happend, hmoves.trans hmoves'⟩
    have hstep (r t : Reached) (ht : t ∈ a.ends r) :
        ∃ w ∈ a.language∗, r.cursor.Moves w t.cursor := by
      obtain ⟨w, hw, hmoves⟩ := ih ht
      exact ⟨w, (le_kstar : a.language ≤ a.language∗) hw, hmoves⟩
    exact (mem_repeated (R := fun r t => ∃ w ∈ a.language∗, r.cursor.Moves w t.cursor) hrefl htrans
      hstep _ r [] t ht).resolve_left List.not_mem_nil
  | group n a ih =>
    obtain ⟨s, hs, rfl⟩ := mem_ends_group.1 ht
    exact ih (t := s) hs

/-! ## What is read -/

/-- The positions that follow the repetitions stay behind them. -/
theorem repeated_eq_append (step : Reached → List Reached) (n : Nat) (r : Reached)
    (others : List Reached) : repeated step n r others = repeated step n r [] ++ others := by
  induction n generalizing r others with
  | zero => rfl
  | succ n ih =>
    unfold repeated
    induction step r with
    | nil => rfl
    | cons t found ihfound =>
      rw [List.foldr_cons, List.foldr_cons, ihfound]
      split_ifs
      · rw [ih, ih t (List.foldr _ _ _), List.append_assoc]
      · rfl

/-- Repetitions are those that begin with a step, in the order of the steps, and none. -/
theorem repeated_succ (step : Reached → List Reached) (n : Nat) (r : Reached) :
    repeated step (n + 1) r [] =
      ((step r).filter fun t => r.cursor.offset < t.cursor.offset).flatMap
        (fun t => repeated step n t []) ++ [r] := by
  conv_lhs => unfold repeated
  induction step r with
  | nil => rfl
  | cons t found ih =>
    rw [List.foldr_cons, ih]
    by_cases hmoves : r.cursor.offset < t.cursor.offset
    · rw [if_pos hmoves, List.filter_cons_of_pos (by simpa using hmoves), List.flatMap_cons,
        repeated_eq_append, List.append_assoc]
    · rw [if_neg hmoves, List.filter_cons_of_neg (by simpa using hmoves)]

/-- No repetition is one of the choices. -/
theorem self_mem_repeated (step : Reached → List Reached) (n : Nat) (r : Reached) :
    r ∈ repeated step n r [] := by
  cases n with
  | zero => exact List.mem_singleton_self r
  | succ n =>
    rw [repeated_succ]
    exact List.mem_append_right _ (List.mem_singleton_self r)

/-- A text of the language of a plain pattern is read wherever it stands. -/
theorem mem_ends_of_mem_language {p : Pattern} (hp : p.isPlain = true) {w : List Char}
    (hw : w ∈ p.language) {c d : Cursor} (hmoves : c.Moves w d) (groups : List (Nat × Span)) :
    ⟨d, groups⟩ ∈ p.ends ⟨c, groups⟩ := by
  induction p generalizing w c d with
  | empty =>
    obtain rfl : w = [] := hw
    rw [hmoves.eq_of_offset_eq hmoves.offset]
    exact List.mem_singleton_self _
  | one q =>
    obtain ⟨ch, hch, rfl⟩ := hw
    obtain ⟨offset, behind, rest⟩ := c
    obtain rfl : rest = ch :: d.rest := hmoves.rest
    have hnil := (hmoves.of_cons).2
    rw [hnil.eq_of_offset_eq hnil.offset]
    simp only [ends, if_pos hch]
    exact List.mem_singleton_self _
  | seq a b iha ihb =>
    obtain ⟨ha, hb⟩ := Bool.and_eq_true_iff.1 hp
    obtain ⟨u, hu, v, hv, rfl⟩ := Language.mem_mul.1 hw
    obtain ⟨e, hmoves, hmoves'⟩ := hmoves.exists_of_append
    exact mem_ends_append.2 ⟨⟨e, groups⟩, iha ha hu hmoves, ihb hb hv hmoves'⟩
  | alt a b iha ihb =>
    obtain ⟨ha, hb⟩ := Bool.and_eq_true_iff.1 hp
    rcases hw with hw | hw
    · exact List.mem_append_left _ (iha ha hw hmoves)
    · exact List.mem_append_right _ (ihb hb hw hmoves)
  | many a ih =>
    obtain ⟨words, rfl, hwords⟩ := Language.mem_kstar_iff_exists_nonempty.1 hw
    -- One repetition for each of the words, none of which is empty.
    have hrepeated : ∀ n c, c.rest.length ≤ n → c.Moves words.flatten d →
        ⟨d, groups⟩ ∈ repeated a.ends n ⟨c, groups⟩ [] := by
      clear hmoves hw
      induction words with
      | nil =>
        intro n c _ hmoves
        rw [hmoves.eq_of_offset_eq hmoves.offset]
        exact self_mem_repeated _ _ _
      | cons u words ihwords =>
        obtain ⟨⟨hu, hne⟩, hwords⟩ := List.forall_mem_cons.1 hwords
        intro n c hn hmoves
        obtain ⟨e, hmoves, hmoves'⟩ := hmoves.exists_of_append
        have hlength := congrArg List.length hmoves.rest
        have hpos := List.length_pos_of_ne_nil hne
        rw [List.length_append] at hlength
        obtain ⟨n, rfl⟩ : ∃ m, n = m + 1 := ⟨n - 1, by omega⟩
        rw [repeated_succ]
        refine List.mem_append_left _ (List.mem_flatMap.2 ⟨⟨e, groups⟩, ?_, ?_⟩)
        · refine List.mem_filter.2 ⟨ih hp hu hmoves, decide_eq_true ?_⟩
          exact hmoves.offset_lt hne
        · exact ihwords hwords n e (by omega) hmoves'
    exact hrepeated _ c (Nat.le_refl _) hmoves
  | _ => exact absurd hp Bool.false_ne_true

end ManifestSync.Pattern
