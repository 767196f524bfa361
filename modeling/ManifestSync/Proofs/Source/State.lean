import ManifestSync.Proofs.Source.Segment

/-!
# The state of a walk in the middle of a text

A walk looks one byte ahead, so its state behind the first `n` bytes depends on no more than the
byte that follows them. `Walk.after` is that state: it composes over a split of the text
(`Walk.after_add`), and it takes one step a byte (`Walk.after_succ`). The tokens of a walk are then
what its steps say at each of these states (`Walk.mem_tokens_iff`), which leaves what one step can
do: how it comes to be at the edge of a block comment, and what it makes of the byte there.
-/

namespace ManifestSync.Source

/-- A literal is no code. -/
theorem Quote.region_ne_code (q : Quote) : q.region ≠ .code := by cases q <;> decide

/-- A literal is no block comment. -/
theorem Quote.region_ne_blockComment (q : Quote) : q.region ≠ .blockComment := by
  cases q <;> decide

namespace Walk

/-- The state behind the first `n` bytes of a text. -/
def after (w : Walk) : Nat → List UInt8 → Walk
  | 0, _ => w
  | _ + 1, [] => w
  | n + 1, b :: rest => (w.step b rest.head?).2.after n rest

@[simp]
theorem after_zero (w : Walk) (bytes : List UInt8) : w.after 0 bytes = w := by
  cases bytes <;> rfl

@[simp]
theorem after_nil (w : Walk) (n : Nat) : w.after n [] = w := by
  cases n <;> rfl

@[simp]
theorem after_cons (w : Walk) (n : Nat) (b : UInt8) (rest : List UInt8) :
    w.after (n + 1) (b :: rest) = (w.step b rest.head?).2.after n rest := rfl

/-- A walk over a beginning of a text goes on from the state behind it. -/
theorem after_add (w : Walk) (m n : Nat) (bytes : List UInt8) :
    w.after (m + n) bytes = (w.after m bytes).after n (bytes.drop m) := by
  induction m generalizing w bytes with
  | zero => simp
  | succ m ih =>
    cases bytes with
    | nil => simp
    | cons b rest => rw [Nat.add_right_comm, after_cons, ih, after_cons, List.drop_succ_cons]

/-- A walk takes a step over each byte. -/
theorem after_succ (w : Walk) {n : Nat} {b : UInt8} {bytes : List UInt8} (h : bytes[n]? = some b) :
    w.after (n + 1) bytes = ((w.after n bytes).step b bytes[n + 1]?).2 := by
  have hdrop : bytes.drop n = b :: bytes.drop (n + 1) := by
    obtain ⟨hn, rfl⟩ := List.getElem?_eq_some_iff.1 h
    exact List.drop_eq_getElem_cons hn
  have hnext : (bytes.drop (n + 1)).head? = bytes[n + 1]? := List.head?_drop
  rw [after_add, hdrop, after_cons, hnext, after_zero]

/-- The tokens of a walk are the bytes for which its step from the state before them gives a region. -/
theorem mem_tokens_iff (w : Walk) (offset : Nat) (bytes : List UInt8) (t : Token) :
    t ∈ w.tokens offset bytes ↔ ∃ n, t.offset = offset + n ∧ bytes[n]? = some t.byte ∧
      ((w.after n bytes).step t.byte bytes[n + 1]?).1 = some t.region ∧
      t.depth = (w.after n bytes).depth := by
  induction bytes generalizing w offset with
  | nil => simp [tokens]
  | cons b rest ih =>
    -- The token of the first byte, or one of the walk behind it, a byte further on.
    rw [tokens_cons, List.mem_append, Option.mem_toList, Option.map_eq_some_iff, ih]
    constructor
    · rintro (⟨region, hregion, rfl⟩ | ⟨n, hoffset, hbyte, hregion, hdepth⟩)
      · exact ⟨0, rfl, rfl, by simpa [List.head?_eq_getElem?] using hregion, rfl⟩
      · exact ⟨n + 1, by omega, by simpa using hbyte, by simpa using hregion, hdepth⟩
    · rintro ⟨n, hoffset, hbyte, hregion, hdepth⟩
      cases n with
      | zero =>
        obtain rfl : b = t.byte := by simpa using hbyte
        refine .inl ⟨t.region, by simpa [List.head?_eq_getElem?] using hregion, ?_⟩
        obtain ⟨_, _, _, _⟩ := t
        simp_all
      | succ n =>
        exact .inr ⟨n, by omega, by simpa using hbyte, by simpa using hregion, hdepth⟩

/-! ### What one step can do -/

variable {w : Walk} {b : UInt8} {next : Option UInt8}

/-- The only byte without a region is the one that completes the opening of a block comment. -/
theorem step_fst_eq_none_iff : (w.step b next).1 = none ↔ w.mode = .blockOpening := by
  obtain ⟨mode, depth⟩ := w
  unfold step
  cases mode <;> grind

/-- A block comment is opened from code, by a slash that a star follows, and the slash belongs to
it. -/
theorem step_of_mode_eq_blockOpening (h : (w.step b next).2.mode = .blockOpening) :
    w.mode = .code ∧ b = slash ∧ next = some star ∧ (w.step b next).1 = some .blockComment := by
  obtain ⟨mode, depth⟩ := w
  unfold step at h ⊢
  cases mode <;> grind

/-- A slash closes a block comment only behind a star. -/
theorem step_of_mode_eq_blockClosing (h : (w.step b next).2.mode = .blockClosing) :
    b = star ∧ next = some slash := by
  obtain ⟨mode, depth⟩ := w
  unfold step at h
  cases mode <;> grind

/-- Within a block comment every byte belongs to it. -/
theorem step_fst_of_mode_eq_blockComment (h : w.mode = .blockComment ∨ w.mode = .blockClosing) :
    (w.step b next).1 = some .blockComment := by
  obtain ⟨mode, depth⟩ := w
  unfold step
  cases mode <;> grind

/-- Behind a byte of code a walk is in code. -/
theorem mode_step_of_region_eq_code (h : (w.step b next).1 = some .code) :
    (w.step b next).2.mode = .code := by
  obtain ⟨mode, depth⟩ := w
  unfold step at h ⊢
  cases mode <;> grind [Quote.region_ne_code]

/-- Behind a byte of a block comment a walk is still in it, at its opening or before its last byte,
unless that byte was the last one. -/
theorem mode_step_of_region_eq_blockComment (h : (w.step b next).1 = some .blockComment) :
    (w.step b next).2.mode = .blockOpening ∨ (w.step b next).2.mode = .blockComment ∨
      (w.step b next).2.mode = .blockClosing ∨
      (w.step b next).2.mode = .code ∧ w.mode = .blockClosing := by
  obtain ⟨mode, depth⟩ := w
  unfold step at h ⊢
  cases mode <;> grind [Quote.region_ne_blockComment]

/-! ### The edges of a block comment -/

/-- Before the star that completes the opening of a block comment stands the slash of that opening. -/
theorem exists_of_mode_after_eq_blockOpening {bytes : List UInt8} {i : Nat}
    (hi : i < bytes.length) (h : (start.after i bytes).mode = .blockOpening) :
    ∃ j, i = j + 1 ∧ bytes[j]? = some slash ∧ bytes[i]? = some star ∧
      ((start.after j bytes).step slash bytes[j + 1]?).1 = some .blockComment := by
  cases i with
  | zero => simp [start] at h
  | succ j =>
    have hj : bytes[j]? = some bytes[j] := List.getElem?_eq_getElem (by omega)
    rw [after_succ start hj] at h
    obtain ⟨-, hslash, hstar, hregion⟩ := step_of_mode_eq_blockOpening h
    rw [hslash] at hj hregion
    exact ⟨j, rfl, hj, hstar, hregion⟩

/-- The byte that closes a block comment is a slash, and a star stands before it. -/
theorem exists_of_mode_after_eq_blockClosing {bytes : List UInt8} {i : Nat}
    (hi : i < bytes.length) (h : (start.after i bytes).mode = .blockClosing) :
    bytes[i]? = some slash ∧ ∃ j, i = j + 1 ∧ bytes[j]? = some star := by
  cases i with
  | zero => simp [start] at h
  | succ j =>
    have hj : bytes[j]? = some bytes[j] := List.getElem?_eq_getElem (by omega)
    rw [after_succ start hj] at h
    obtain ⟨hstar, hslash⟩ := step_of_mode_eq_blockClosing h
    rw [hstar] at hj
    exact ⟨hslash, j, rfl, hj⟩

end Walk

end ManifestSync.Source
