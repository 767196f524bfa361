/-!
# Steps that can fail

How a chain of steps that may fail comes to succeed: each step has succeeded, on what the ones
before it gave. `foldlM_invariant` carries what every step preserves to the end of a run over a
list, and `foldlM_congr` replaces the step by one that agrees with it wherever the run has come.
-/

namespace ManifestSync

variable {ε α β : Type}

/-- A chain succeeds exactly if its first step does and, on its result, the rest. -/
theorem bind_eq_ok {x : Except ε α} {f : α → Except ε β} {b : β} :
    x >>= f = .ok b ↔ ∃ a, x = .ok a ∧ f a = .ok b := by
  cases x with
  | error e =>
    constructor
    · exact fun h => nomatch h
    · exact fun ⟨_, h, _⟩ => nomatch h
  | ok a =>
    constructor
    · intro h
      exact ⟨a, rfl, h⟩
    · rintro ⟨a', ha, h⟩
      obtain rfl := Except.ok.inj ha
      exact h

/-- A mapped result is a success exactly if the result is one. -/
theorem map_eq_ok {x : Except ε α} {f : α → β} {b : β} :
    x.map f = .ok b ↔ ∃ a, x = .ok a ∧ f a = b := by
  cases x with
  | error e =>
    constructor
    · exact fun h => nomatch h
    · exact fun ⟨_, h, _⟩ => nomatch h
  | ok a =>
    constructor
    · intro h
      exact ⟨a, rfl, Except.ok.inj h⟩
    · rintro ⟨a', ha, rfl⟩
      obtain rfl := Except.ok.inj ha
      rfl

/-- What every successful step preserves holds at the end of a successful run. -/
theorem foldlM_invariant {step : β → α → Except ε β} (P : β → Prop)
    (hstep : ∀ b a b', P b → step b a = .ok b' → P b') {l : List α} {b b' : β} (hb : P b)
    (h : l.foldlM step b = .ok b') : P b' := by
  induction l generalizing b with
  | nil =>
    obtain rfl := Except.ok.inj h
    exact hb
  | cons a l ih =>
    rw [List.foldlM_cons] at h
    obtain ⟨c, hc, h⟩ := bind_eq_ok.1 h
    exact ih (hstep b a c hb hc) h

/-- A successful run goes the same way with a step that succeeds whenever the old one does, with the
same result. -/
theorem foldlM_congr {step step' : β → α → Except ε β} {l : List α} {b b' : β}
    (hstep : ∀ a ∈ l, ∀ c d, step c a = .ok d → step' c a = .ok d)
    (h : l.foldlM step b = .ok b') : l.foldlM step' b = .ok b' := by
  induction l generalizing b with
  | nil => exact h
  | cons a l ih =>
    rw [List.foldlM_cons] at h ⊢
    obtain ⟨c, hc, h⟩ := bind_eq_ok.1 h
    rw [hstep a List.mem_cons_self b c hc]
    exact ih (fun a' ha' => hstep a' (List.mem_cons_of_mem a ha')) h

end ManifestSync
