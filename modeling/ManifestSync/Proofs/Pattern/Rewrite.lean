import Mathlib.Data.List.Basic
import ManifestSync.Pattern.Search
import ManifestSync.Proofs.Pattern.Preferred

/-!
# What replacing does to a text

Replacing all matches of a pattern rewrites a text from left to right. `Rewrites` describes this
without positions: a rule says which piece becomes what, given the character in front of it and the
text behind it; where the rule has nothing to say a character is kept.

If a pattern finds just the pieces that a rule rewrites (`Follows`), then replacing its matches is
rewriting by the rule (`Follows.rewrites_replaceAll`). The induction is over the length of the text,
since what a match has read is skipped at once (`replaceFrom_skip`).
-/

namespace ManifestSync.Pattern

/-- A rule allows that between the character `prev`, if there is one, and the text `z` the text `a`
becomes `b`. -/
abbrev Replacement := (prev : Option Char) → (a b z : List Char) → Prop

/-- A text is rewritten from left to right wherever a rule allows it. -/
inductive Rewrites (rule : Replacement) : Option Char → List Char → List Char → Prop where
  /-- The end of the text. -/
  | nil {prev : Option Char} : Rewrites rule prev [] []
  /-- A character at which the rule allows nothing stays. -/
  | keep {prev : Option Char} {c : Char} {s t : List Char}
    (hfree : ∀ a b z, c :: s = a ++ z → ¬ rule prev a b z)
    (h : Rewrites rule (some c) s t) : Rewrites rule prev (c :: s) (c :: t)
  /-- A piece becomes what the rule allows. -/
  | rewrite {prev : Option Char} {a b z t : List Char} (hrule : rule prev a b z)
    (h : Rewrites rule (a.getLast?.or prev) z t) : Rewrites rule prev (a ++ z) (b ++ t)

/-- A pattern reads just the pieces that a rule rewrites, each of which becomes `b`. -/
structure Follows (p : Pattern) (rule : Replacement) (b : List Char) : Prop where
  /-- Where the rule allows something the pattern prefers to read it. -/
  reads : ∀ {behind a b' z}, rule behind.head? a b' z →
    b' = b ∧ a ≠ [] ∧ p.Prefers behind a z
  /-- Where the rule allows nothing the pattern does not match. -/
  free : ∀ {offset behind rest}, (∀ a b z, rest = a ++ z → ¬ rule behind.head? a b z) →
    p.matchAt? ⟨offset, behind, rest⟩ = none

/-- Replacing goes on at the next character: unconditionally before `resume`, else behind the match
at the current position if there is one. -/
theorem replaceFrom_cons (p : Pattern) (b behind : List Char) (offset resume : Nat) (c : Char)
    (rest : List Char) : p.replaceFrom b behind offset resume (c :: rest) =
      if offset < resume then
        p.replaceFrom b (c :: behind) (offset + c.utf8Size) resume rest
      else match p.matchAt? ⟨offset, behind, c :: rest⟩ with
        | none => c :: p.replaceFrom b (c :: behind) (offset + c.utf8Size) resume rest
        | some m =>
          b ++ p.replaceFrom b (c :: behind) (offset + c.utf8Size) m.stop.offset rest := rfl

/-- What a match has read is skipped. -/
theorem replaceFrom_skip (p : Pattern) (b behind : List Char) (offset : Nat) (a z : List Char) :
    p.replaceFrom b behind offset (offset + Text.byteLength a) (a ++ z) =
      p.replaceFrom b (a.reverse ++ behind) (offset + Text.byteLength a)
        (offset + Text.byteLength a) z := by
  induction a generalizing behind offset with
  | nil => rfl
  | cons c a ih =>
    have hlt : offset < offset + Text.byteLength (c :: a) := by
      have hpos := c.utf8Size_pos
      rw [Text.byteLength]
      omega
    have hoffset : offset + Text.byteLength (c :: a) =
        offset + c.utf8Size + Text.byteLength a := by rw [Text.byteLength, Nat.add_assoc]
    rw [List.cons_append, replaceFrom_cons, if_pos hlt, hoffset, ih, List.reverse_cons,
      List.append_assoc]
    rfl

/-- The last character of a text, from its first one on. -/
theorem getLast?_cons_or (c : Char) (u : List Char) (prev : Option Char) :
    (c :: u).getLast?.or prev = u.getLast?.or (some c) := by
  rw [List.getLast?_cons, Option.some_or, ← Option.or_some]

/-- The last character of two texts is that of the second one, or else of the first. -/
theorem getLast?_append_or (a u : List Char) (prev : Option Char) :
    (a ++ u).getLast?.or prev = u.getLast?.or (a.getLast?.or prev) := by
  rw [List.getLast?_append, Option.or_assoc]

variable {p : Pattern} {rule : Replacement} {b : List Char}

/-- A character at which the rule allows nothing is still there. -/
theorem Rewrites.exists_eq_cons {prev : Option Char} {c : Char} {s t : List Char}
    (h : Rewrites rule prev (c :: s) t) (hfree : ∀ a b z, c :: s = a ++ z → ¬ rule prev a b z) :
    ∃ t', t = c :: t' ∧ Rewrites rule (some c) s t' := by
  generalize htext : c :: s = text at h
  cases h with
  | nil => exact nomatch htext
  | keep _ h =>
    obtain ⟨rfl, rfl⟩ := List.cons.inj htext
    exact ⟨_, rfl, h⟩
  | rewrite hrule h => exact absurd hrule (hfree _ _ _ htext)

/-- An empty text stays empty under a rule for pieces that are not empty. -/
theorem Rewrites.eq_nil {prev : Option Char} {t : List Char} (h : Rewrites rule prev [] t)
    (hrule : ∀ {prev a b z}, rule prev a b z → a ≠ []) : t = [] := by
  generalize htext : [] = text at h
  cases h with
  | nil => rfl
  | keep => exact nomatch htext
  | rewrite hrewrite => exact absurd (List.append_eq_nil_iff.1 htext.symm).1 (hrule hrewrite)

/-- Replacing the matches of a pattern that follows a rule is rewriting by the rule. -/
theorem Follows.rewrites_replaceFrom (h : p.Follows rule b) (behind : List Char)
    (offset resume : Nat) (text : List Char) (hresume : resume ≤ offset) :
    Rewrites rule behind.head? text (p.replaceFrom b behind offset resume text) := by
  induction hn : text.length using Nat.strong_induction_on
    generalizing behind offset resume text with
  | _ n ih =>
    subst hn
    cases text with
    | nil => exact .nil
    | cons c rest =>
      rw [replaceFrom_cons, if_neg (Nat.not_lt.2 hresume)]
      by_cases hfree : ∀ a b z, c :: rest = a ++ z → ¬ rule behind.head? a b z
      · rw [h.free hfree]
        refine .keep hfree (ih rest.length (Nat.lt_succ_self _) (c :: behind) _ _ rest ?_ rfl)
        exact Nat.le_add_right_of_le hresume
      · push Not at hfree
        obtain ⟨a, b', z, htext, hrule⟩ := hfree
        obtain ⟨rfl, hne, hprefers⟩ := h.reads hrule
        -- The characters of the match are skipped, the first of them by the step just taken.
        have hskip := p.replaceFrom_skip b' behind offset a z
        have hlt : offset < offset + Text.byteLength a := by
          have hpos := Nat.pos_of_ne_zero fun h => hne (Text.eq_nil_of_byteLength_eq_zero h)
          omega
        rw [← htext, replaceFrom_cons, if_pos hlt] at hskip
        have hat := hprefers.matchAt?_eq offset
        rw [← htext] at hat
        rw [hat]
        simp only
        rw [hskip, htext]
        refine .rewrite hrule ?_
        have hhead : a.getLast?.or behind.head? = (a.reverse ++ behind).head? := by
          rw [List.head?_append, List.head?_reverse]
        have hlength : z.length < (c :: rest).length := by
          have hpos := List.length_pos_of_ne_nil hne
          rw [htext, List.length_append]
          omega
        rw [hhead]
        exact ih z.length hlength _ _ _ z (Nat.le_refl _) rfl

/-- Replacing all matches of a pattern that follows a rule is rewriting by the rule. -/
theorem Follows.rewrites_replaceAll (h : p.Follows rule b) (text : List Char) :
    Rewrites rule none text (p.replaceAll b text) :=
  h.rewrites_replaceFrom [] 0 0 text (Nat.le_refl 0)

end ManifestSync.Pattern
