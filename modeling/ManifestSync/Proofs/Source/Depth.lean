import ManifestSync.Proofs.Source.State

/-!
# The depth of a walk

The mode of a walk does not depend on its depth (`step_congr`), and its depth changes at the
parentheses in code alone (`depth_step`). Both facts are read off the single step, and what follows
them no longer opens it.

The depths of the tokens of a walk therefore follow from the tokens themselves, whichever bytes gave
them (`depthsFrom_tokens`). And two walks in the same mode go on side by side, a fixed number of
parentheses apart (`after_deepen`). Only a closing parenthesis can bring them closer: a walk that has
none open stays at depth zero, while the deeper one still closes one.
-/

namespace ManifestSync.Source

/-- The depth of a walk behind a token of it. -/
def Token.depthBehind (t : Token) : Nat :=
  if t.isCode openParen then t.depth + 1
  else if t.isCode closeParen then t.depth - 1
  else t.depth

/-- Behind a deeper token the walk is deeper as well, unless the token closes a parenthesis that only
the deeper walk has open. -/
theorem Token.depthBehind_add (k : Nat) (t : Token)
    (h : k ≤ { t with depth := t.depth + k }.depthBehind) :
    { t with depth := t.depth + k }.depthBehind = t.depthBehind + k := by
  unfold depthBehind isCode at h ⊢
  grind

/-- The depths of the tokens are those to which the parentheses among them lead, the first token being
at the depth `depth`. -/
def DepthsFrom (depth : Nat) : List Token → Prop
  | [] => True
  | t :: ts => t.depth = depth ∧ DepthsFrom t.depthBehind ts

attribute [ext] Walk

namespace Walk

variable {w w' : Walk} {b : UInt8} {next : Option UInt8}

/-! ## One step -/

/-- A step changes the depth as the token of its byte says. -/
theorem depth_step {region : Region} (h : (w.step b next).1 = some region) (offset : Nat) :
    (w.step b next).2.depth = (Token.mk offset b region w.depth).depthBehind := by
  obtain ⟨mode, depth⟩ := w
  unfold step at h ⊢
  unfold Token.depthBehind Token.isCode
  cases mode <;> grind [Quote.region_ne_code, openParen, closeParen, lineFeed]

/-- A step over a byte without a token leaves the depth as it is. -/
theorem depth_step_of_eq_none (h : (w.step b next).1 = none) :
    (w.step b next).2.depth = w.depth := by
  obtain ⟨mode, depth⟩ := w
  obtain rfl : mode = .blockOpening := step_fst_eq_none_iff.1 h
  rfl

/-- The region and the mode that a step gives do not depend on the depth. -/
theorem step_congr (h : w.mode = w'.mode) :
    (w.step b next).1 = (w'.step b next).1 ∧ (w.step b next).2.mode = (w'.step b next).2.mode := by
  obtain ⟨mode, depth⟩ := w
  obtain ⟨mode', depth'⟩ := w'
  obtain rfl : mode = mode' := h
  unfold step
  cases mode with
  | code => cases Quote.ofByte? b <;> dsimp only <;> split_ifs <;> exact ⟨rfl, rfl⟩
  | literal q escaped =>
    cases escaped with
    | true => exact ⟨rfl, rfl⟩
    | false => dsimp only; split_ifs <;> exact ⟨rfl, rfl⟩
  | lineComment => dsimp only; split_ifs <;> exact ⟨rfl, rfl⟩
  | blockOpening => exact ⟨rfl, rfl⟩
  | blockComment => dsimp only; split_ifs <;> exact ⟨rfl, rfl⟩
  | blockClosing => exact ⟨rfl, rfl⟩

/-! ## The tokens of a walk -/

/-- The depths of the tokens of a walk follow from the tokens. -/
theorem depthsFrom_tokens (w : Walk) (offset : Nat) (bytes : List UInt8) :
    DepthsFrom w.depth (w.tokens offset bytes) := by
  induction bytes generalizing w offset with
  | nil => trivial
  | cons b rest ih =>
    have hrest := ih (w.step b rest.head?).2 (offset + 1)
    rw [tokens_cons]
    cases hregion : (w.step b rest.head?).1 with
    | none =>
      rw [depth_step_of_eq_none hregion] at hrest
      exact hrest
    | some region =>
      rw [depth_step hregion offset] at hrest
      exact ⟨rfl, hrest⟩

/-! ## Deeper states -/

/-- The same state with `k` more parentheses open. -/
def deepen (k : Nat) (w : Walk) : Walk := { w with depth := w.depth + k }

/-- A step from a deeper state is the same step, deeper, unless it closes a parenthesis that only the
deeper state has open. -/
theorem step_deepen (k : Nat) (w : Walk) (h : k ≤ ((w.deepen k).step b next).2.depth) :
    (w.deepen k).step b next = ((w.step b next).1, (w.step b next).2.deepen k) := by
  obtain ⟨hregion, hmode⟩ : ((w.deepen k).step b next).1 = (w.step b next).1 ∧
      ((w.deepen k).step b next).2.mode = (w.step b next).2.mode := step_congr rfl
  have hdepth : ((w.deepen k).step b next).2.depth = (w.step b next).2.depth + k := by
    cases hstep : (w.step b next).1 with
    | none =>
      rw [depth_step_of_eq_none hstep, depth_step_of_eq_none (hregion.trans hstep)]
      rfl
    | some region =>
      rw [depth_step (hregion.trans hstep) 0] at h ⊢
      rw [depth_step hstep 0]
      exact Token.depthBehind_add k ⟨0, b, region, w.depth⟩ h
  exact Prod.ext hregion (Walk.ext hmode hdepth)

/-- A run from a deeper state is the same run, deeper, as long as the depth does not fall below the
distance between the two. -/
theorem after_deepen (k : Nat) (w : Walk) (n : Nat) (bytes : List UInt8)
    (h : ∀ m ≤ n, k ≤ ((w.deepen k).after m bytes).depth) :
    (w.deepen k).after n bytes = (w.after n bytes).deepen k := by
  induction n generalizing w bytes with
  | zero => rw [after_zero, after_zero]
  | succ n ih =>
    cases bytes with
    | nil => rw [after_nil, after_nil]
    | cons b rest =>
      have hfirst : k ≤ ((w.deepen k).step b rest.head?).2.depth := by
        simpa using h 1 (Nat.le_add_left 1 n)
      have hstep := step_deepen k w hfirst
      have hrest : ∀ m ≤ n, k ≤ (((w.step b rest.head?).2.deepen k).after m rest).depth := by
        intro m hm
        have hnext := h (m + 1) (Nat.succ_le_succ hm)
        rwa [after_cons, hstep] at hnext
      rw [after_cons, after_cons, hstep, ih _ _ hrest]

end Walk

end ManifestSync.Source
