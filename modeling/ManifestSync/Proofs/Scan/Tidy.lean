import Mathlib.Data.List.Chain
import ManifestSync.Proofs.Scan.Cleaning

/-!
# What cleaning leaves

A text is `Tidy` if cleaning has nothing to do in it. The text that cleaning leaves is tidy
(`tidy_cleanAssertion`). Each step brings one part of this about, and the steps behind it keep that
part: a blank or a full stop that comes in the place of other characters does not belong to a word,
so no new `await` arises from it (`NoAwait.of_rewrites`).
-/

namespace ManifestSync.Scan

open Pattern

/-! ## No `await` -/

/-- Behind the character `prev`, if there is one, no word `await` stands in front of a blank. -/
def NoAwait (prev : Option Char) (text : List Char) : Prop :=
  ∀ u c v, text = u ++ (awaitWord ++ c :: v) → Text.isBlank c = true →
    (u.getLast?.or prev).any Text.isWord = true

section
variable {prev prev' : Option Char} {c : Char} {s t u v : List Char} {rule : Replacement}

/-- Of the character in front of a text it only matters whether it belongs to a word. -/
theorem NoAwait.congr (hprev : prev.any Text.isWord = prev'.any Text.isWord)
    (h : NoAwait prev t) : NoAwait prev' t := by
  intro u c v htext hc
  have hword := h u c v htext hc
  cases hu : u.getLast? with
  | none =>
    rw [hu, Option.none_or] at hword
    rw [Option.none_or, ← hprev, hword]
  | some d => rwa [hu] at hword

/-- What holds of a text holds of its first part. -/
theorem NoAwait.left (h : NoAwait prev (u ++ v)) : NoAwait prev u := by
  intro w c x htext hc
  refine h w c (x ++ v) ?_ hc
  rw [htext, List.append_assoc, List.append_assoc, List.cons_append]

/-- What holds of a text holds of its second part, behind the last character of the first. -/
theorem NoAwait.right (h : NoAwait prev (u ++ v)) : NoAwait (u.getLast?.or prev) v := by
  intro w c x htext hc
  have hword := h (u ++ w) c x (by rw [htext, List.append_assoc]) hc
  rwa [getLast?_append_or] at hword

/-- A character is put in front of a text, where no word `await` begins with it. -/
theorem NoAwait.cons (h : NoAwait (some c) t)
    (hc : ∀ d v, c :: t = awaitWord ++ d :: v → Text.isBlank d = true →
      prev.any Text.isWord = true) : NoAwait prev (c :: t) := by
  intro u d v htext hd
  cases u with
  | nil => exact hc d v htext hd
  | cons c' u =>
    obtain ⟨rfl, hrest⟩ := List.cons.inj htext
    have hword := h u d v hrest hd
    rwa [getLast?_cons_or]

/-- Blanks are in no word. -/
theorem AreBlanks.any_isWord {w : List Char} (hw : AreBlanks w) (a : List Char)
    (prev : Option Char) : ((a ++ w).getLast?.or prev).any Text.isWord = false := by
  obtain ⟨c, hlast, -, hc⟩ := hw.exists_getLast?
  rw [List.getLast?_append_of_ne_nil a hw.1, hlast]
  exact Text.isWord_of_isBlank hc

/-- Behind a word character a rule keeps words together. -/
structure KeepsWords (rule : Replacement) : Prop where
  /-- Only pieces that begin with a blank are rewritten. -/
  starts : ∀ {prev a b z}, rule prev a b z → prev.any Text.isWord = true →
    ∃ c a', a = c :: a' ∧ Text.isBlank c = true
  /-- What they become does not begin with a word character. -/
  becomes : ∀ {prev a b z}, rule prev a b z → prev.any Text.isWord = true →
    ∃ d b', b = d :: b' ∧ Text.isWord d = false

/-- Word characters behind another one, and a blank behind them, are not new. -/
theorem KeepsWords.exists_of_rewrites (hrule : KeepsWords rule) (h : Rewrites rule prev s t)
    (hprev : prev.any Text.isWord = true) {x : List Char} (hx : ∀ c ∈ x, Text.isWord c = true)
    {d : Char} (hd : Text.isBlank d = true) (ht : t = x ++ d :: v) :
    ∃ d' v', Text.isBlank d' = true ∧ s = x ++ d' :: v' := by
  induction h generalizing x with
  | nil => simp at ht
  | @keep prev c s t hfree h ih =>
    cases x with
    | nil =>
      obtain ⟨rfl, -⟩ := List.cons.inj ht
      exact ⟨c, s, hd, rfl⟩
    | cons c' x =>
      obtain ⟨rfl, hrest⟩ := List.cons.inj ht
      obtain ⟨hc, hx⟩ := List.forall_mem_cons.1 hx
      obtain ⟨d', v', hd', rfl⟩ := ih hc hx hrest
      exact ⟨d', v', hd', rfl⟩
  | @rewrite prev a b z t hrewrite h ih =>
    obtain ⟨c, a, rfl, hc⟩ := hrule.starts hrewrite hprev
    obtain ⟨d', b, rfl, hd'⟩ := hrule.becomes hrewrite hprev
    cases x with
    | nil => exact ⟨c, a ++ z, hc, rfl⟩
    | cons c' x =>
      obtain ⟨rfl, -⟩ := List.cons.inj ht
      exact absurd ((hx _ List.mem_cons_self).symm.trans hd') (Bool.false_ne_true ·.symm)

/-- What begins with the word `await`, from its first letter on. -/
theorem cons_eq_awaitWord (h : c :: t = awaitWord ++ v) : c = 'a' ∧ t = "wait".toList ++ v := by
  have hword : awaitWord = 'a' :: "wait".toList := by decide
  rw [hword] at h
  exact List.cons.inj h

/-- A word `await` in front of a blank whose first letter has been kept was there before. -/
theorem KeepsWords.exists_await (hrule : KeepsWords rule) (h : Rewrites rule (some c) s t)
    {d : Char} (hd : Text.isBlank d = true) (ht : c :: t = awaitWord ++ d :: v) :
    ∃ d' v', Text.isBlank d' = true ∧ c :: s = awaitWord ++ d' :: v' := by
  obtain ⟨rfl, hrest⟩ := cons_eq_awaitWord ht
  have hwait : "wait".toList.all Text.isWord = true := by decide
  obtain ⟨d', v', hd', rfl⟩ := hrule.exists_of_rewrites h rfl (List.all_eq_true.1 hwait) hd hrest
  exact ⟨d', v', hd', rfl⟩

/-- Behind a word character no `await` is dropped. -/
theorem keepsWords_await : KeepsWords awaitRule where
  starts h hprev := absurd (hprev.symm.trans h.1) (Bool.false_ne_true ·.symm)
  becomes h hprev := absurd (hprev.symm.trans h.1) (Bool.false_ne_true ·.symm)

/-- Where each `await` has been dropped there is none. -/
theorem noAwait_of_rewrites (h : Rewrites awaitRule prev s t) : NoAwait prev t := by
  induction h with
  | nil =>
    intro u c v htext
    simp at htext
  | @keep prev c s t hfree h ih =>
    refine ih.cons fun d v ht hd => ?_
    obtain ⟨d', v', hd', hs⟩ := keepsWords_await.exists_await h hd ht
    -- The word would have been dropped.
    by_contra hprev
    obtain ⟨a, z, htext, hrule⟩ := exists_awaitRule (eq_false_of_ne_true hprev) hd' v'
    exact hfree a [] z (hs.trans htext) hrule
  | @rewrite prev a b z t hrule h ih =>
    obtain ⟨hprev, ⟨w, hw, rfl⟩, -, rfl⟩ := hrule
    exact ih.congr ((hw.any_isWord awaitWord prev).trans hprev.symm)

/-- A rule puts one character, which is in no word, in the place of pieces that begin and end
outside of words. -/
structure Separates (rule : Replacement) : Prop where
  /-- The pieces begin with a blank. -/
  starts : ∀ {prev a b z}, rule prev a b z → ∃ c a', a = c :: a' ∧ Text.isBlank c = true
  /-- The pieces do not end with a word character. -/
  ends : ∀ {prev a b z}, rule prev a b z → (a.getLast?.or prev).any Text.isWord = false
  /-- They become one character. -/
  becomes : ∀ {prev a b z}, rule prev a b z → ∃ d, b = [d] ∧ Text.isWord d = false

/-- A rule that separates keeps words. -/
theorem Separates.keepsWords (hrule : Separates rule) : KeepsWords rule where
  starts h _ := hrule.starts h
  becomes h _ := by
    obtain ⟨d, rfl, hd⟩ := hrule.becomes h
    exact ⟨d, [], rfl, hd⟩

/-- A rule that separates brings about no word `await`. -/
theorem NoAwait.of_rewrites (hrule : Separates rule) (h : Rewrites rule prev s t)
    (hs : NoAwait prev s) : NoAwait prev t := by
  induction h with
  | nil => exact hs
  | @keep prev c s t hfree h ih =>
    refine (ih (NoAwait.right (u := [c]) hs)).cons fun d v ht hd => ?_
    obtain ⟨d', v', hd', hs'⟩ := hrule.keepsWords.exists_await h hd ht
    exact hs [] d' v' hs' hd'
  | @rewrite prev a b z t hrewrite h ih =>
    obtain ⟨d, rfl, hd⟩ := hrule.becomes hrewrite
    have hrest : NoAwait (some d) t :=
      (ih hs.right).congr ((hrule.ends hrewrite).trans hd.symm)
    refine NoAwait.cons (c := d) hrest fun e v ht _ => ?_
    obtain ⟨rfl, -⟩ := cons_eq_awaitWord ht
    exact absurd hd (by decide)

/-- A full stop separates. -/
theorem separates_gap : Separates gapRule where
  starts := by
    rintro prev a b z ⟨⟨w, ⟨hne, hw⟩, rfl⟩, -⟩
    obtain ⟨c, w, rfl⟩ := List.exists_cons_of_ne_nil hne
    exact ⟨c, w ++ ['.'], rfl, hw c List.mem_cons_self⟩
  ends := by
    rintro prev a b z ⟨⟨w, -, rfl⟩, -⟩
    rw [List.getLast?_concat]
    rfl
  becomes h := ⟨'.', h.2, rfl⟩

/-- A space separates. -/
theorem separates_blank : Separates blankRule where
  starts := by
    rintro prev a b z ⟨⟨hne, ha⟩, -⟩
    obtain ⟨c, a', rfl⟩ := List.exists_cons_of_ne_nil hne
    exact ⟨c, a', rfl, ha c List.mem_cons_self⟩
  ends h := h.1.any_isWord [] _
  becomes h := ⟨' ', h.2.2, rfl⟩

/-- No `await` arises where a text is trimmed. -/
theorem NoAwait.trim {text : List Char} (h : NoAwait none text) :
    NoAwait none (Text.trim text) := by
  obtain ⟨w, w', hw, -, htext⟩ := Text.exists_trim text
  rw [htext] at h
  have htrim := h.right.left
  by_cases hne : w = []
  · subst hne
    exact htrim
  · exact htrim.congr (AreBlanks.any_isWord ⟨hne, hw⟩ [] none)

end

/-! ## Blanks -/

section
variable {prev : Option Char} {s t : List Char}

/-- A blank does not stand in front of a full stop. -/
def NoGap (c d : Char) : Prop := Text.isBlank c = true → d ≠ '.'

/-- A space does not stand in front of another one or of a full stop. -/
def SingleSpace (c d : Char) : Prop := c = ' ' → d ≠ ' ' ∧ d ≠ '.'

/-- A text that begins with a full stop when gaps have been closed began with it before, or with
blanks and it. -/
theorem exists_blanks_of_rewrites (h : Rewrites gapRule prev s t) (ht : t.head? = some '.') :
    ∃ w z, (∀ c ∈ w, Text.isBlank c = true) ∧ s = w ++ '.' :: z := by
  cases h with
  | nil => exact nomatch ht
  | @keep _ c s t hfree h =>
    obtain rfl := Option.some.inj ht
    exact ⟨[], s, List.forall_mem_nil _, rfl⟩
  | @rewrite _ a b z t hrule h =>
    obtain ⟨⟨w, ⟨-, hw⟩, rfl⟩, -⟩ := hrule
    exact ⟨w, z, hw, List.append_assoc ..⟩

/-- Where gaps have been closed there is none. -/
theorem isChain_noGap (h : Rewrites gapRule prev s t) : t.IsChain NoGap := by
  induction h with
  | nil => exact .nil
  | @keep prev c s t hfree h ih =>
    refine ih.cons fun d hd hc => ?_
    rintro rfl
    obtain ⟨w, z, hw, rfl⟩ := exists_blanks_of_rewrites h hd
    have hblanks : AreBlanks (c :: w) := ⟨List.cons_ne_nil _ _, List.forall_mem_cons.2 ⟨hc, hw⟩⟩
    exact hfree ((c :: w) ++ ['.']) ['.'] z (by simp) ⟨⟨c :: w, hblanks, rfl⟩, rfl⟩
  | @rewrite prev a b z t hrule h ih =>
    obtain ⟨-, rfl⟩ := hrule
    exact ih.cons fun d _ hdot => absurd hdot (by decide)

/-- Where blanks have become spaces there are no other blanks. -/
theorem eq_space_of_rewrites (h : Rewrites blankRule prev s t) :
    ∀ c ∈ t, Text.isBlank c = true → c = ' ' := by
  induction h with
  | nil => exact List.forall_mem_nil _
  | @keep prev c s t hfree h ih =>
    exact List.forall_mem_cons.2
      ⟨fun hc => absurd ((isBlank_of_free hfree).symm.trans hc) Bool.false_ne_true, ih⟩
  | @rewrite prev a b z t hrule h ih =>
    obtain ⟨-, -, rfl⟩ := hrule
    exact List.forall_mem_cons.2 ⟨fun _ => rfl, ih⟩

/-- Where blanks have become single spaces, and there were no gaps, no two spaces and no gaps are
next to each other. -/
theorem isChain_singleSpace (h : Rewrites blankRule prev s t) (hs : s.IsChain NoGap) :
    t.IsChain SingleSpace := by
  induction h with
  | nil => exact .nil
  | @keep prev c s t hfree h ih =>
    refine (ih (List.isChain_cons.1 hs).2).cons fun d _ hc => ?_
    subst hc
    exact nomatch isBlank_of_free hfree
  | @rewrite prev a b z t hrule h ih =>
    obtain ⟨hblanks, hstops, rfl⟩ := hrule
    refine (ih hs.right_of_append).cons fun d hd _ => ?_
    cases z with
    | nil =>
      obtain rfl := h.eq_nil fun hrule => hrule.1.1
      exact nomatch hd
    | cons c z =>
      -- The character behind the blanks is no blank, and so it is kept.
      have hc := hstops c rfl
      obtain ⟨t, rfl, -⟩ := h.exists_eq_cons (free_of_isBlank hc)
      obtain rfl := Option.some.inj hd
      constructor
      · rintro rfl
        exact nomatch hc
      · rintro rfl
        obtain ⟨d, hlast, -, hd⟩ := hblanks.exists_getLast?
        exact (List.isChain_append.1 hs).2.2 d hlast _ rfl hd rfl

end

/-! ## Tidy texts -/

/-- A text in which there is nothing to clean. -/
structure Tidy (text : List Char) : Prop where
  /-- Every blank is a space. -/
  spaces : ∀ c ∈ text, Text.isBlank c = true → c = ' '
  /-- No space stands in front of another one or of a full stop. -/
  single : text.IsChain SingleSpace
  /-- No word `await` stands in front of a blank. -/
  noAwait : NoAwait none text

/-- In a tidy text there is no line break. -/
theorem Tidy.not_mem_lineFeed {text : List Char} (h : Tidy text) : '\n' ∉ text := fun hmem =>
  absurd (h.spaces _ hmem rfl) (by decide)

/-- A part of a tidy text is tidy if it does not begin with a word character. -/
theorem Tidy.infix {u lit v tail : List Char} {c : Char} (h : Tidy (u ++ (lit ++ v)))
    (hlit : lit = c :: tail) (hc : Text.isWord c = false) : Tidy lit where
  spaces d hd := h.spaces d (List.mem_append_right u (List.mem_append_left v hd))
  single := h.single.right_of_append.left_of_append
  noAwait := by
    subst hlit
    refine NoAwait.cons (NoAwait.right (u := [c]) h.noAwait.right.left) fun d w htext _ => ?_
    obtain ⟨rfl, -⟩ := cons_eq_awaitWord htext
    exact absurd hc (by decide)

/-- What cleaning leaves of a statement is tidy. -/
theorem tidy_cleanAssertion (statement : List Char) : Tidy (cleanAssertion statement) := by
  obtain ⟨kept, joined, hsteps⟩ := exists_steps statement
  have hbare : NoAwait none (Text.trimEndOf (· == ';') (Text.trim kept)) := by
    have hkept := (noAwait_of_rewrites hsteps.await).trim
    obtain ⟨w, -, htrim⟩ := Text.exists_trimEndOf (· == ';') (Text.trim kept)
    rw [htrim] at hkept
    exact hkept.left
  have hchain : (Text.trim joined).IsChain NoGap := by
    have hjoined := isChain_noGap hsteps.gap
    obtain ⟨w, w', -, -, htrim⟩ := Text.exists_trim joined
    rw [htrim] at hjoined
    exact hjoined.right_of_append.left_of_append
  exact
    { spaces := eq_space_of_rewrites hsteps.blank
      single := isChain_singleSpace hsteps.blank hchain
      noAwait := ((hbare.of_rewrites separates_gap hsteps.gap).trim).of_rewrites
        separates_blank hsteps.blank }

end ManifestSync.Scan
