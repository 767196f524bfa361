import Mathlib.Tactic.SplitIfs
import ManifestSync.Text.Utf8

/-!
# Byte lengths

How the number of bytes of a text behaves under the operations on lists of characters, and how it
cuts a text: a beginning of a text is determined by its number of bytes. A byte below 128 is a
character of ASCII; the bytes of every other character are above that (`ascii_or_forall_le`), so that
a delimiter is never met within a character.
-/

namespace ManifestSync.Text

/-- The bytes of two texts one behind the other. -/
@[simp]
theorem byteLength_append (a b : List Char) :
    byteLength (a ++ b) = byteLength a + byteLength b := by
  induction a with
  | nil => simp [byteLength]
  | cons c a ih => simp only [List.cons_append, byteLength, ih, Nat.add_assoc]

/-- A text occupies as many bytes backwards. -/
@[simp]
theorem byteLength_reverse (a : List Char) : byteLength a.reverse = byteLength a := by
  induction a with
  | nil => rfl
  | cons c a ih => simp [byteLength, ih, Nat.add_comm]

/-- Only the empty text has no bytes. -/
theorem eq_nil_of_byteLength_eq_zero {a : List Char} (h : byteLength a = 0) : a = [] := by
  cases a with
  | nil => rfl
  | cons c a =>
    have hc := c.utf8Size_pos
    unfold byteLength at h
    omega

/-- As many bytes as a text occupies are taken as that text. -/
theorem takeBytes_byteLength (a b : List Char) : takeBytes (byteLength a) (a ++ b) = a := by
  induction a with
  | nil => simp only [byteLength, takeBytes]
  | cons c a ih =>
    obtain ⟨n, hn⟩ := Nat.exists_eq_succ_of_ne_zero (Nat.pos_iff_ne_zero.1 c.utf8Size_pos)
    have hlen : byteLength (c :: a) = n + byteLength a + 1 := by
      rw [byteLength]
      omega
    rw [hlen, List.cons_append, takeBytes]
    have hsub : n + byteLength a + 1 - c.utf8Size = byteLength a := by omega
    rw [hsub, ih]

/-- A text has at most one beginning with a number of bytes. -/
theorem append_inj_of_byteLength {a b a' b' : List Char} (h : a ++ b = a' ++ b')
    (hlen : byteLength a = byteLength a') : a = a' ∧ b = b' := by
  have ha : a = a' := by
    rw [← takeBytes_byteLength a b, h, hlen, takeBytes_byteLength]
  subst ha
  exact ⟨rfl, List.append_cancel_left h⟩

/-- Dropping bytes cuts a text behind them. -/
theorem exists_of_dropBytes? {n : Nat} {text rest : List Char} (h : dropBytes? n text = some rest) :
    ∃ u, text = u ++ rest ∧ byteLength u = n := by
  induction text generalizing n with
  | nil =>
    cases n with
    | zero => exact ⟨[], Option.some.inj h, rfl⟩
    | succ n => exact nomatch h
  | cons c text ih =>
    cases n with
    | zero => exact ⟨[], Option.some.inj h, rfl⟩
    | succ n =>
      rw [dropBytes?] at h
      split_ifs at h with hsize
      obtain ⟨u, rfl, hu⟩ := ih h
      exact ⟨c :: u, rfl, by rw [byteLength, hu, Nat.add_sub_cancel' hsize]⟩

/-- A slice is a part of the text that lies between the two offsets. -/
theorem exists_of_slice? {start stop : Nat} {text w : List Char}
    (h : slice? text start stop = some w) :
    ∃ u v, text = u ++ (w ++ v) ∧ byteLength u = start ∧ start + byteLength w = stop := by
  unfold slice? at h
  split_ifs at h with hlt
  obtain ⟨tail, htail, hbind⟩ := Option.bind_eq_some_iff.1 h
  obtain ⟨rest, hrest, htake⟩ := Option.bind_eq_some_iff.1 hbind
  obtain ⟨u, rfl, hu⟩ := exists_of_dropBytes? htail
  obtain ⟨w', rfl, hw⟩ := exists_of_dropBytes? hrest
  obtain rfl : takeBytes (stop - start) (w' ++ rest) = w := Option.some.inj htake
  refine ⟨u, rest, ?_, hu, ?_⟩
  · rw [← hw, takeBytes_byteLength]
  · rw [← hw, takeBytes_byteLength, hw]
    omega

/-! ## The bytes themselves -/

/-- The bytes of two texts, one behind the other. -/
@[simp]
theorem utf8_append (a b : List Char) : utf8 (a ++ b) = utf8 a ++ utf8 b := List.flatMap_append

/-- The bytes of a text, one character after the other. -/
theorem utf8_cons (c : Char) (a : List Char) : utf8 (c :: a) = String.utf8EncodeChar c ++ utf8 a :=
  List.flatMap_cons

/-- The number of bytes of a text. -/
@[simp]
theorem length_utf8 (a : List Char) : (utf8 a).length = byteLength a := by
  induction a with
  | nil => rfl
  | cons c a ih => rw [utf8_cons, List.length_append, ih, String.length_utf8EncodeChar, byteLength]

/-- A character of ASCII is one byte, and the bytes of any other character are none of ASCII. -/
theorem ascii_or_forall_le (c : Char) :
    c.toNat < 128 ∧ String.utf8EncodeChar c = [UInt8.ofNat c.toNat] ∨
      128 ≤ c.toNat ∧ ∀ b ∈ String.utf8EncodeChar c, 128 ≤ b.toNat := by
  have hval : c.val.toNat = c.toNat := rfl
  have hbyte (n : Nat) (hlow : 128 ≤ n) (hhigh : n < 256) : 128 ≤ (UInt8.ofNat n).toNat := by
    rw [UInt8.toNat_ofNat', Nat.mod_eq_of_lt (by omega)]
    exact hlow
  unfold String.utf8EncodeChar
  rw [hval]
  dsimp only
  generalize c.toNat = v
  -- One case for each number of bytes.
  split_ifs with h₁ h₂ h₃
  · exact .inl ⟨by omega, rfl⟩
  all_goals
    refine .inr ⟨by omega, ?_⟩
    simp only [List.forall_mem_cons, List.not_mem_nil, false_imp_iff, implies_true, and_true]
  · exact ⟨hbyte _ (by omega) (by omega), hbyte _ (by omega) (by omega)⟩
  · exact ⟨hbyte _ (by omega) (by omega), hbyte _ (by omega) (by omega),
      hbyte _ (by omega) (by omega)⟩
  · exact ⟨hbyte _ (by omega) (by omega), hbyte _ (by omega) (by omega),
      hbyte _ (by omega) (by omega), hbyte _ (by omega) (by omega)⟩

/-- A byte of ASCII that a text has is a character of it. -/
theorem eq_ofNat_of_mem_utf8EncodeChar {c : Char} {b : UInt8} (h : b ∈ String.utf8EncodeChar c)
    (hb : b.toNat < 128) : c = Char.ofNat b.toNat := by
  rcases ascii_or_forall_le c with ⟨hascii, hbytes⟩ | ⟨-, hbytes⟩
  · rw [hbytes, List.mem_singleton] at h
    have htoNat : b.toNat = c.toNat := by
      rw [h, UInt8.toNat_ofNat']
      exact Nat.mod_eq_of_lt (by omega)
    rw [htoNat, Char.ofNat_toNat]
  · have := hbytes b h
    omega

/-- A byte of a character is none of ASCII that the character is not. -/
theorem ne_of_mem_utf8EncodeChar {c : Char} {a b : UInt8} (hb : b ∈ String.utf8EncodeChar c)
    (ha : a.toNat < 128) (h : c ≠ Char.ofNat a.toNat) : b ≠ a := by
  rintro rfl
  exact h (eq_ofNat_of_mem_utf8EncodeChar hb ha)

/-- A text is cut at every byte of ASCII that it has. -/
theorem exists_of_utf8_eq_append {text : List Char} {x y : List UInt8} {b : UInt8}
    (h : utf8 text = x ++ b :: y) (hb : b.toNat < 128) :
    ∃ u v, text = u ++ Char.ofNat b.toNat :: v ∧ utf8 u = x ∧ utf8 v = y := by
  induction text generalizing x with
  | nil => exact absurd h.symm (List.append_ne_nil_of_right_ne_nil _ (List.cons_ne_nil _ _))
  | cons c rest ih =>
    -- What is found behind the first character is a cut of the whole text.
    have hbehind : ∀ {m}, x = String.utf8EncodeChar c ++ m → utf8 rest = m ++ b :: y →
        ∃ u v, c :: rest = u ++ Char.ofNat b.toNat :: v ∧ utf8 u = x ∧ utf8 v = y := by
      intro m hx hrest
      obtain ⟨u, v, rfl, hu, hv⟩ := ih hrest
      exact ⟨c :: u, v, rfl, by rw [utf8_cons, hu, hx], hv⟩
    rw [utf8_cons] at h
    rcases List.append_eq_append_iff.1 h with ⟨m, hx, hrest⟩ | ⟨m, hc, hrest⟩
    · exact hbehind hx hrest
    · cases m with
      | nil => exact hbehind (m := []) (by rw [hc, List.append_nil, List.append_nil]) hrest.symm
      | cons b' m =>
        obtain ⟨rfl, hy⟩ := List.cons.inj hrest
        have hmem : b ∈ String.utf8EncodeChar c := hc ▸ List.mem_append_right _ List.mem_cons_self
        obtain rfl := eq_ofNat_of_mem_utf8EncodeChar hmem hb
        rcases ascii_or_forall_le (Char.ofNat b.toNat) with ⟨-, hbytes⟩ | ⟨-, hbytes⟩
        · -- The character is this one byte.
          have hlength := congrArg List.length (hbytes.symm.trans hc)
          simp only [List.length_append, List.length_cons, List.length_nil] at hlength
          obtain rfl := List.length_eq_zero_iff.1 (show x.length = 0 by omega)
          obtain rfl := List.length_eq_zero_iff.1 (show m.length = 0 by omega)
          exact ⟨[], rest, rfl, rfl, hy.symm⟩
        · have := hbytes b hmem
          omega

/-- A text without bytes is empty. -/
theorem eq_nil_of_utf8_eq_nil {text : List Char} (h : utf8 text = []) : text = [] := by
  apply eq_nil_of_byteLength_eq_zero
  rw [← length_utf8, h, List.length_nil]

/-- A byte of ASCII is a character. -/
theorem utf8EncodeChar_ofNat {b : UInt8} (hb : b.toNat < 128) :
    String.utf8EncodeChar (Char.ofNat b.toNat) = [b] := by
  have hchar : (Char.ofNat b.toNat).toNat = b.toNat := by
    rw [Char.ofNat, dif_pos (.inl (by omega))]
    rfl
  rcases ascii_or_forall_le (Char.ofNat b.toNat) with ⟨-, hbytes⟩ | ⟨hge, -⟩
  · rw [hbytes, hchar, UInt8.ofNat_toNat]
  · omega

/-- A text that begins with a byte of ASCII begins with that character. -/
theorem exists_cons_of_utf8_eq_cons {text : List Char} {b : UInt8} {y : List UInt8}
    (h : utf8 text = b :: y) (hb : b.toNat < 128) :
    ∃ v, text = Char.ofNat b.toNat :: v ∧ utf8 v = y := by
  obtain ⟨u, v, rfl, hu, hv⟩ := exists_of_utf8_eq_append (x := []) h hb
  rw [eq_nil_of_utf8_eq_nil hu]
  exact ⟨v, rfl, hv⟩

/-- A text begins with a byte of ASCII exactly if it begins with that character. -/
theorem head?_utf8_eq_some_iff {text : List Char} {b : UInt8} (hb : b.toNat < 128) :
    (utf8 text).head? = some b ↔ text.head? = some (Char.ofNat b.toNat) := by
  constructor
  · intro h
    obtain ⟨more, hmore⟩ := List.head?_eq_some_iff.1 h
    obtain ⟨v, rfl, -⟩ := exists_cons_of_utf8_eq_cons hmore hb
    rfl
  · intro h
    obtain ⟨more, rfl⟩ := List.head?_eq_some_iff.1 h
    rw [utf8_cons, utf8EncodeChar_ofNat hb]
    rfl

/-- Behind the first byte of a character there is none of ASCII. -/
theorem exists_utf8EncodeChar_eq (c : Char) : ∃ b more, String.utf8EncodeChar c = b :: more ∧
    ∀ b' ∈ more, 128 ≤ b'.toNat := by
  rcases ascii_or_forall_le c with ⟨-, hbytes⟩ | ⟨-, hbytes⟩
  · exact ⟨_, [], hbytes, List.forall_mem_nil _⟩
  · obtain ⟨b, more, hcons⟩ := List.exists_cons_of_ne_nil (String.utf8EncodeChar_ne_nil (c := c))
    rw [hcons] at hbytes
    exact ⟨b, more, hcons, (List.forall_mem_cons.1 hbytes).2⟩

end ManifestSync.Text
