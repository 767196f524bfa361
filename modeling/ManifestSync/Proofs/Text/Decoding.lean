import Mathlib.Tactic.SplitIfs
import ManifestSync.Text.Utf8

/-!
# Reading back what was encoded

The bytes of a text decode to the text (`decode?_utf8`). A character of one byte is read at once. A
lead byte announces how many bytes follow, in which range the first of them lies, and the highest
bits of the code point (`ofLead?_two`, `ofLead?_three`, `ofLead?_four`); each byte behind it fits
that range and brings six more bits, until the last one completes the code point.
-/

namespace ManifestSync.Text

/-! ## One byte -/

/-- A byte of ASCII is a character. -/
theorem decodeFrom_ascii {n : Nat} (hn : n < 128) (rest : List UInt8) :
    decodeFrom none (UInt8.ofNat n :: rest) = some (Char.ofNat n) :: decodeFrom none rest := by
  have hlt : UInt8.ofNat n < 128 := by
    rw [UInt8.lt_iff_toNat_lt, UInt8.toNat_ofNat']
    show n % 256 < 128
    omega
  rw [decodeFrom, decodeFirst, if_pos hlt, UInt8.toNat_ofNat', Nat.mod_eq_of_lt (by omega)]
  rfl

/-- A lead byte leaves a character open. -/
theorem decodeFrom_lead {n : Nat} (hn : 128 ≤ n) (hn' : n < 256) {p : Partial}
    (hp : Partial.ofLead? (UInt8.ofNat n) = some p) (rest : List UInt8) :
    decodeFrom none (UInt8.ofNat n :: rest) = decodeFrom (some p) rest := by
  have hge : ¬ UInt8.ofNat n < 128 := by
    rw [UInt8.lt_iff_toNat_lt, UInt8.toNat_ofNat']
    show ¬ n % 256 < 128
    omega
  rw [decodeFrom, decodeFirst, if_neg hge, hp]
  rfl

section
variable {low high : UInt8} {bits n : Nat} (hn : n < 64) (hlow : low.toNat ≤ n + 128)
  (hhigh : n + 128 ≤ high.toNat)
include hn hlow hhigh

/-- A byte in the range of an open character adds six bits to it. -/
theorem decodeNext_of_fits (needed : Nat) :
    decodeNext ⟨needed, low, high, bits⟩ (UInt8.ofNat (n + 128)) =
      if needed ≤ 1 then ([some (Char.ofNat (bits * 64 + n))], none)
      else ([], some ⟨needed - 1, 0x80, 0xBF, bits * 64 + n⟩) := by
  have hnat : (UInt8.ofNat (n + 128)).toNat = n + 128 := by
    rw [UInt8.toNat_ofNat']
    exact Nat.mod_eq_of_lt (by omega)
  have hfits : low ≤ UInt8.ofNat (n + 128) ∧ UInt8.ofNat (n + 128) ≤ high := by
    rw [UInt8.le_iff_toNat_le, UInt8.le_iff_toNat_le, hnat]
    exact ⟨hlow, hhigh⟩
  unfold decodeNext
  rw [if_pos hfits, hnat, Nat.add_sub_cancel]

/-- While more bytes are needed, the character stays open. -/
theorem decodeFrom_more (needed : Nat) (rest : List UInt8) :
    decodeFrom (some ⟨needed + 2, low, high, bits⟩) (UInt8.ofNat (n + 128) :: rest) =
      decodeFrom (some ⟨needed + 1, 0x80, 0xBF, bits * 64 + n⟩) rest := by
  rw [decodeFrom, decodeNext_of_fits hn hlow hhigh, if_neg (by omega)]
  rfl

/-- The last byte completes the character. -/
theorem decodeFrom_last (rest : List UInt8) :
    decodeFrom (some ⟨1, low, high, bits⟩) (UInt8.ofNat (n + 128) :: rest) =
      some (Char.ofNat (bits * 64 + n)) :: decodeFrom none rest := by
  rw [decodeFrom, decodeNext_of_fits hn hlow hhigh, if_pos (Nat.le_refl 1)]
  rfl

end

/-! ## Lead bytes -/

/-- The lead bytes of two bytes, by the highest bits of the code point. -/
theorem ofLead?_two : ∀ q < 32, 2 ≤ q →
    Partial.ofLead? (UInt8.ofNat (q + 0xC0)) = some ⟨1, 0x80, 0xBF, q⟩ := by
  decide

/-- The lead bytes of three bytes. The range of the second byte leaves out overlong forms and
surrogates. -/
theorem ofLead?_three : ∀ q < 16,
    Partial.ofLead? (UInt8.ofNat (q + 0xE0)) =
      some ⟨2, if q = 0 then 0xA0 else 0x80, if q = 13 then 0x9F else 0xBF, q⟩ := by
  decide

/-- The lead bytes of four bytes. The range of the second byte leaves out overlong forms and what is
no code point. -/
theorem ofLead?_four : ∀ q < 5,
    Partial.ofLead? (UInt8.ofNat (q + 0xF0)) =
      some ⟨3, if q = 0 then 0x90 else 0x80, if q = 4 then 0x8F else 0xBF, q⟩ := by
  decide

/-! ## One character -/

/-- Two bytes decode to the code point that they were made of. -/
theorem decodeFrom_two {v : Nat} (hlow : 128 ≤ v) (hhigh : v < 2048) (rest : List UInt8) :
    decodeFrom none (UInt8.ofNat (v / 64 + 0xC0) :: UInt8.ofNat (v % 64 + 0x80) :: rest) =
      some (Char.ofNat v) :: decodeFrom none rest := by
  have hlead := ofLead?_two (v / 64) (by omega) (by omega)
  have hbits : v / 64 * 64 + v % 64 = v := by omega
  rw [decodeFrom_lead (by omega) (by omega) hlead,
    decodeFrom_last (by omega) (by show 128 ≤ _; omega) (by show _ ≤ 191; omega), hbits]

/-- Three bytes decode to the code point that they were made of, if it is no surrogate. -/
theorem decodeFrom_three {v : Nat} (hlow : 2048 ≤ v) (hhigh : v < 65536)
    (hrange : v < 0xD800 ∨ 0xDFFF < v) (rest : List UInt8) :
    decodeFrom none (UInt8.ofNat (v / 4096 + 0xE0) :: UInt8.ofNat (v / 64 % 64 + 0x80) ::
        UInt8.ofNat (v % 64 + 0x80) :: rest) = some (Char.ofNat v) :: decodeFrom none rest := by
  have hlead := ofLead?_three (v / 4096) (by omega)
  have hbits : (v / 4096 * 64 + v / 64 % 64) * 64 + v % 64 = v := by omega
  rw [decodeFrom_lead (by omega) (by omega) hlead, decodeFrom_more (by omega) ?_ ?_ 0,
    decodeFrom_last (by omega) (by show 128 ≤ _; omega) (by show _ ≤ 191; omega), hbits]
  · split_ifs
    · show 160 ≤ _
      omega
    · show 128 ≤ _
      omega
  · split_ifs
    · show _ ≤ 159
      omega
    · show _ ≤ 191
      omega

/-- Four bytes decode to the code point that they were made of. -/
theorem decodeFrom_four {v : Nat} (hlow : 65536 ≤ v) (hhigh : v < 0x110000) (rest : List UInt8) :
    decodeFrom none (UInt8.ofNat (v / 262144 + 0xF0) :: UInt8.ofNat (v / 4096 % 64 + 0x80) ::
        UInt8.ofNat (v / 64 % 64 + 0x80) :: UInt8.ofNat (v % 64 + 0x80) :: rest) =
      some (Char.ofNat v) :: decodeFrom none rest := by
  have hlead := ofLead?_four (v / 262144) (by omega)
  have hbits : ((v / 262144 * 64 + v / 4096 % 64) * 64 + v / 64 % 64) * 64 + v % 64 = v := by omega
  rw [decodeFrom_lead (by omega) (by omega) hlead, decodeFrom_more (by omega) ?_ ?_ 1,
    decodeFrom_more (by omega) (by show 128 ≤ _; omega) (by show _ ≤ 191; omega) 0,
    decodeFrom_last (by omega) (by show 128 ≤ _; omega) (by show _ ≤ 191; omega), hbits]
  · split_ifs
    · show 144 ≤ _
      omega
    · show 128 ≤ _
      omega
  · split_ifs
    · show _ ≤ 143
      omega
    · show _ ≤ 191
      omega

/-- The code point of a character is below 0x110000 and no surrogate. -/
theorem toNat_range (c : Char) :
    c.toNat < 0xD800 ∨ (0xDFFF < c.toNat ∧ c.toNat < 0x110000) := c.valid

/-- The bytes of a character decode to the character. -/
theorem decodeFrom_utf8EncodeChar (c : Char) (rest : List UInt8) :
    decodeFrom none (String.utf8EncodeChar c ++ rest) = some c :: decodeFrom none rest := by
  have hrange := toNat_range c
  have hchar : Char.ofNat c.toNat = c := Char.ofNat_toNat c
  have hval : c.val.toNat = c.toNat := rfl
  unfold String.utf8EncodeChar
  rw [hval]
  dsimp only
  generalize c.toNat = v at *
  -- One case for each number of bytes; the highest bits fit the lead byte.
  split_ifs with h₁ h₂ h₃
  · rw [List.singleton_append, decodeFrom_ascii (by omega), hchar]
  · have hhead : v / 64 % 32 = v / 64 := by omega
    rw [hhead, ← hchar]
    exact decodeFrom_two (by omega) (by omega) rest
  · have hhead : v / 4096 % 16 = v / 4096 := by omega
    rw [hhead, ← hchar]
    exact decodeFrom_three (by omega) (by omega) (by omega) rest
  · have hhead : v / 262144 % 8 = v / 262144 := by omega
    rw [hhead, ← hchar]
    exact decodeFrom_four (by omega) (by omega) rest

/-! ## A text -/

/-- The bytes of a text decode to its characters, none of them ill formed. -/
theorem decode_utf8 (text : List Char) : decode (utf8 text) = text.map some := by
  unfold decode utf8
  induction text with
  | nil => rfl
  | cons c text ih => rw [List.flatMap_cons, decodeFrom_utf8EncodeChar, ih, List.map_cons]

/-- A text is read back from its bytes. -/
theorem decode?_utf8 (text : List Char) : decode? (utf8 text) = some text := by
  unfold decode?
  rw [decode_utf8]
  induction text with
  | nil => rfl
  | cons c text ih =>
    rw [List.map_cons, List.mapM_cons, ih]
    rfl

end ManifestSync.Text
