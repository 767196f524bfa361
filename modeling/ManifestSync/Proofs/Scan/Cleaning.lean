import Mathlib.Data.List.Chain
import ManifestSync.Proofs.Pattern.Rewrite
import ManifestSync.Proofs.Text.Word
import ManifestSync.Proofs.Text.Words
import ManifestSync.Scan.Assertion

/-!
# The rules by which assertions are cleaned

Cleaning an assertion rewrites its text three times. A rule says for each of them which pieces become
what, without any pattern: words `await` with the blanks behind them (`awaitRule`), blanks in front
of a full stop (`gapRule`) and all other blanks (`blankRule`). The first two patterns follow their
rules (`follows_await`, `follows_gap`). Blanks are not found by a pattern, since the text is put
together from its words; that this comes to the same is `rewrites_normalizeBlanks_trim`, by induction
over the words.

`exists_steps` is all that is used of cleaning elsewhere.
-/

namespace ManifestSync.Scan

open Pattern

/-! ## The rules -/

/-- The word `await`. -/
def awaitWord : List Char := "await".toList

/-- Blanks, at least one. -/
def AreBlanks (w : List Char) : Prop := w ≠ [] ∧ ∀ c ∈ w, Text.isBlank c = true

/-- The last of some blanks. -/
theorem AreBlanks.exists_getLast? {w : List Char} (hw : AreBlanks w) :
    ∃ c, w.getLast? = some c ∧ c ∈ w ∧ Text.isBlank c = true := by
  have hlast := List.getLast?_eq_some_getLast hw.1
  have hmem := List.mem_of_getLast? hlast
  exact ⟨_, hlast, hmem, hw.2 _ hmem⟩

/-- The word `await` and all blanks behind it are dropped. -/
def awaitRule : Replacement := fun prev a b z => prev.any Text.isWord = false ∧
  (∃ w, AreBlanks w ∧ a = awaitWord ++ w) ∧ Stops Text.isBlank z ∧ b = []

/-- Blanks in front of a full stop are dropped. -/
def gapRule : Replacement := fun _ a b _ => (∃ w, AreBlanks w ∧ a = w ++ ['.']) ∧ b = ['.']

/-- Blanks become one space. -/
def blankRule : Replacement := fun _ a b z => AreBlanks a ∧ Stops Text.isBlank z ∧ b = [' ']

/-- A word `await` in front of a blank is dropped with all blanks there are. -/
theorem exists_awaitRule {prev : Option Char} (hprev : prev.any Text.isWord = false) {c : Char}
    (hc : Text.isBlank c = true) (z : List Char) :
    ∃ a z', awaitWord ++ c :: z = a ++ z' ∧ awaitRule prev a [] z' := by
  refine ⟨awaitWord ++ c :: z.takeWhile Text.isBlank, z.dropWhile Text.isBlank, ?_,
    hprev, ⟨_, ⟨List.cons_ne_nil _ _, ?_⟩, rfl⟩, stops_dropWhile _ _, rfl⟩
  · rw [List.append_assoc, List.cons_append, List.takeWhile_append_dropWhile]
  · exact List.forall_mem_cons.2 ⟨hc, fun d hd => List.mem_takeWhile_imp hd⟩

/-- Blanks are rewritten wherever there is one. -/
theorem isBlank_of_free {prev : Option Char} {c : Char} {s : List Char}
    (hfree : ∀ a b z, c :: s = a ++ z → ¬ blankRule prev a b z) : Text.isBlank c = false := by
  by_contra hc
  refine hfree (c :: s.takeWhile Text.isBlank) _ (s.dropWhile Text.isBlank) ?_
    ⟨⟨List.cons_ne_nil _ _, ?_⟩, stops_dropWhile _ _, rfl⟩
  · rw [List.cons_append, List.takeWhile_append_dropWhile]
  · exact List.forall_mem_cons.2
      ⟨eq_true_of_ne_false hc, fun d hd => List.mem_takeWhile_imp hd⟩

/-- Nothing but blanks is rewritten by their rule. -/
theorem free_of_isBlank {prev : Option Char} {c : Char} {s : List Char}
    (hc : Text.isBlank c = false) (a b z : List Char) (htext : c :: s = a ++ z) :
    ¬ blankRule prev a b z := by
  rintro ⟨⟨hne, ha⟩, -⟩
  obtain ⟨c', a, rfl⟩ := List.exists_cons_of_ne_nil hne
  obtain rfl := (List.cons.inj htext).1
  exact Bool.false_ne_true (hc.symm.trans (ha _ List.mem_cons_self))

/-- The pattern of `await` follows its rule. -/
theorem follows_await : awaitPattern.Follows awaitRule [] where
  reads := by
    rintro behind a b z ⟨hprev, ⟨w, ⟨hne, hw⟩, rfl⟩, hz, rfl⟩
    refine ⟨rfl, List.append_ne_nil_of_right_ne_nil _ hne, ?_⟩
    have hboundary : Pattern.boundary.Prefers behind [] (awaitWord ++ (w ++ z)) :=
      prefers_boundary (by rw [hprev]; rfl)
    exact (Prefers.append (v := []) hboundary prefers_text).append (prefers_oneOrMore hw hne hz)
  free := by
    intro offset behind rest hfree
    refine Option.eq_none_iff_forall_ne_some.2 fun m hm => ?_
    obtain ⟨t, ht, -⟩ := exists_mem_ends_of_matchAt? hm
    obtain ⟨s, hs, ht⟩ := mem_ends_append.1 ht
    obtain ⟨r, hr, hs⟩ := mem_ends_append.1 hs
    obtain ⟨rfl, hboundary⟩ := mem_ends_boundary.1 hr
    have hrest := (mem_ends_text hs).rest
    obtain ⟨w, hw, hmoves⟩ := exists_mem_language ht
    obtain ⟨hne, hw⟩ := mem_language_oneOrMore_one.1 hw
    obtain ⟨c, w, rfl⟩ := List.exists_cons_of_ne_nil hne
    rw [hmoves.rest, List.cons_append] at hrest
    have hprev : behind.head?.any Text.isWord = false := by
      unfold Cursor.atBoundary at hboundary
      rw [hrest] at hboundary
      have hword : Text.isWord 'a' = true := rfl
      simpa [awaitWord, hword] using hboundary
    obtain ⟨a, z, htext, hrule⟩ :=
      exists_awaitRule hprev (hw c List.mem_cons_self) (w ++ t.cursor.rest)
    exact hfree a [] z (hrest.trans htext) hrule

/-- The pattern of a gap in a call chain follows its rule. -/
theorem follows_gap : chainGapPattern.Follows gapRule ['.'] where
  reads := by
    rintro behind a b z ⟨⟨w, ⟨hne, hw⟩, rfl⟩, rfl⟩
    refine ⟨rfl, List.append_ne_nil_of_right_ne_nil _ (List.cons_ne_nil _ _), ?_⟩
    have hstops : Stops Text.isBlank (['.'] ++ z) := by
      rintro c hc
      obtain rfl : '.' = c := Option.some.inj hc
      rfl
    exact (prefers_oneOrMore hw hne hstops).append prefers_char
  free := by
    intro offset behind rest hfree
    refine Option.eq_none_iff_forall_ne_some.2 fun m hm => ?_
    obtain ⟨t, ht, -⟩ := exists_mem_ends_of_matchAt? hm
    obtain ⟨s, hs, ht⟩ := mem_ends_append.1 ht
    obtain ⟨w, hw, hmoves⟩ := exists_mem_language hs
    obtain ⟨hne, hw⟩ := mem_language_oneOrMore_one.1 hw
    obtain ⟨c, hc, hstop, -⟩ := mem_ends_one ht
    obtain rfl := beq_iff_eq.1 hc
    have hrest := hmoves.rest
    rw [hstop.rest, ← List.append_assoc] at hrest
    exact hfree _ _ _ hrest ⟨⟨w, ⟨hne, hw⟩, rfl⟩, rfl⟩

/-- Visible characters stay under the rule for blanks. -/
theorem rewrites_word {prev : Option Char} {w z t : List Char}
    (hw : ∀ c ∈ w, Text.isBlank c = false) (h : Rewrites blankRule (w.getLast?.or prev) z t) :
    Rewrites blankRule prev (w ++ z) (w ++ t) := by
  induction w generalizing prev with
  | nil => exact h
  | cons c w ih =>
    obtain ⟨hc, hw⟩ := List.forall_mem_cons.1 hw
    refine .keep (free_of_isBlank hc) (ih hw ?_)
    rwa [getLast?_cons_or] at h

/-- A text is a word, some blanks and a rest that does not start with a blank; without blanks there
is no rest. -/
theorem exists_word_blanks (text : List Char) : ∃ w blanks z,
    text = w ++ (blanks ++ z) ∧ (∀ c ∈ w, Text.isBlank c = false) ∧
      (∀ c ∈ blanks, Text.isBlank c = true) ∧ Stops Text.isBlank z ∧ (blanks = [] → z = []) := by
  have hrest := stops_dropWhile (!Text.isBlank ·) text
  generalize hdrop : text.dropWhile (!Text.isBlank ·) = rest at hrest
  refine ⟨text.takeWhile (!Text.isBlank ·), rest.takeWhile Text.isBlank,
    rest.dropWhile Text.isBlank, ?_, fun c hc => by simpa using List.mem_takeWhile_imp hc,
    fun c hc => List.mem_takeWhile_imp hc, stops_dropWhile _ _, fun hblanks => ?_⟩
  · rw [List.takeWhile_append_dropWhile, ← hdrop, List.takeWhile_append_dropWhile]
  · cases rest with
    | nil => rfl
    | cons c rest =>
      rw [List.takeWhile_cons_of_pos (by simpa using hrest c rfl)] at hblanks
      exact absurd hblanks (List.cons_ne_nil _ _)

/-- A text without blanks at its ends gets single spaces by the rule for blanks. -/
theorem rewrites_normalizeBlanks {prev : Option Char} {text : List Char}
    (hstart : ∀ c ∈ text.head?, Text.isBlank c = false)
    (hend : ∀ c ∈ text.getLast?, Text.isBlank c = false) :
    Rewrites blankRule prev text (Text.normalizeBlanks text) := by
  induction hn : text.length using Nat.strong_induction_on generalizing prev text with
  | _ n ih =>
    subst hn
    cases text with
    | nil => exact .nil
    | cons c rest =>
      obtain ⟨w, blanks, z, rfl, hw, hblanks, hz, hnone⟩ := exists_word_blanks rest
      have hword : ∀ d ∈ c :: w, Text.isBlank d = false :=
        List.forall_mem_cons.2 ⟨hstart c rfl, hw⟩
      rw [← List.cons_append] at hend ⊢
      cases z with
      | nil =>
        -- There are no blanks, since the text does not end with one.
        obtain rfl : blanks = [] := by
          by_contra hne
          have hlast := List.getLast?_eq_some_getLast hne
          have hmem := List.mem_of_getLast? hlast
          rw [List.append_nil, List.getLast?_append_of_ne_nil _ hne, hlast] at hend
          exact Bool.false_ne_true ((hend _ rfl).symm.trans (hblanks _ hmem))
        rw [List.append_nil, List.append_nil,
          Text.normalizeBlanks_word (List.cons_ne_nil _ _) hword, ← List.append_nil (c :: w)]
        exact rewrites_word hword .nil
      | cons d z =>
        have hne : blanks ≠ [] := fun h => List.cons_ne_nil _ _ (hnone h)
        rw [Text.normalizeBlanks_append (List.cons_ne_nil _ _) hword hne hblanks
          (Text.words_ne_nil (hz d rfl) z)]
        refine rewrites_word hword (.rewrite ⟨⟨hne, hblanks⟩, hz, rfl⟩ (ih _ ?_ hz ?_ rfl))
        · simp only [List.length_cons, List.length_append]
          omega
        · rwa [← List.append_assoc, List.getLast?_append_of_ne_nil _ (List.cons_ne_nil _ _)] at hend

/-- Single spaces are put into a text, without the blanks at its ends, by the rule for blanks. -/
theorem rewrites_normalizeBlanks_trim (text : List Char) :
    Rewrites blankRule none (Text.trim text) (Text.normalizeBlanks text) := by
  rw [← Text.normalizeBlanks_trim]
  refine rewrites_normalizeBlanks ?_ ?_
  · intro c hc
    obtain ⟨rest, hrest⟩ := List.head?_eq_some_iff.1 hc
    exact Text.isBlank_of_trim_eq_cons hrest
  · intro c hc
    obtain ⟨init, hinit⟩ := List.getLast?_eq_some_iff.1 hc
    exact Text.isBlank_of_trim_eq_concat hinit

/-- What cleaning makes of a statement, step by step. -/
structure Steps (statement kept joined : List Char) : Prop where
  /-- First `await` is dropped. -/
  await : Rewrites awaitRule none statement kept
  /-- Then, without blanks at the ends and without semicolons behind, gaps are closed. -/
  gap : Rewrites gapRule none (Text.trimEndOf (· == ';') (Text.trim kept)) joined
  /-- Last, again without blanks at the ends, blanks become single spaces. -/
  blank : Rewrites blankRule none (Text.trim joined) (cleanAssertion statement)

/-- Cleaning takes these steps. -/
theorem exists_steps (statement : List Char) : ∃ kept joined, Steps statement kept joined :=
  ⟨awaitPattern.replaceAll [] statement,
    chainGapPattern.replaceAll ['.']
      (Text.trimEndOf (· == ';') (Text.trim (awaitPattern.replaceAll [] statement))),
    follows_await.rewrites_replaceAll _, follows_gap.rewrites_replaceAll _,
    rewrites_normalizeBlanks_trim _⟩

end ManifestSync.Scan
