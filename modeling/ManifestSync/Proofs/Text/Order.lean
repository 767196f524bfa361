import Mathlib.Tactic.SplitIfs
import ManifestSync.Proofs.Text.Bytes
import ManifestSync.Proofs.Text.Decoding

/-!
# The order of texts and of their bytes

Texts are compared character by character. The bytes of two texts compare in the same way
(`utf8_lt_utf8`): the smaller one of two characters does not have more bytes; with fewer bytes it has a
smaller first one, and with as many the bytes hold the digits of the code points, the highest first.
-/

namespace ManifestSync.Text

/-- Lists of bytes are compared by their first bytes and, where these are the same, by the rest. -/
theorem cons_ofNat_lt_iff {m n : Nat} (hm : m < 256) (hn : n < 256) {x y : List UInt8} :
    UInt8.ofNat m :: x < UInt8.ofNat n :: y ↔ m < n ∨ m = n ∧ x < y := by
  have hm' : (UInt8.ofNat m).toNat = m := UInt8.toNat_ofNat_of_lt' hm
  have hn' : (UInt8.ofNat n).toNat = n := UInt8.toNat_ofNat_of_lt' hn
  rw [List.cons_lt_cons_iff, UInt8.lt_iff_toNat_lt, ← UInt8.toNat_inj, hm', hn']

/-- The bytes of a smaller character are smaller, whatever follows. -/
theorem utf8EncodeChar_append_lt {c d : Char} (h : c < d) (x y : List UInt8) :
    String.utf8EncodeChar c ++ x < String.utf8EncodeChar d ++ y := by
  have hlt : c.toNat < d.toNat := h
  have hrange := toNat_range d
  unfold String.utf8EncodeChar
  rw [show c.val.toNat = c.toNat from rfl, show d.val.toNat = d.toNat from rfl]
  dsimp only
  generalize c.toNat = m at *
  generalize d.toNat = n at *
  -- One case for each number of bytes of the one and of the other.
  split_ifs
  all_goals
    simp only [List.cons_append, List.nil_append]
    simp (disch := omega) only [cons_ofNat_lt_iff, Nat.mod_eq_of_lt]
    omega

/-- The bytes of a smaller text are smaller. -/
theorem utf8_lt_utf8 {a b : List Char} (h : a < b) : utf8 a < utf8 b := by
  induction h with
  | @nil d b =>
    obtain ⟨byte, more, hcons⟩ := List.exists_cons_of_ne_nil (String.utf8EncodeChar_ne_nil (c := d))
    rw [utf8_cons, hcons]
    exact .nil
  | rel hlt =>
    rw [utf8_cons, utf8_cons]
    exact utf8EncodeChar_append_lt hlt _ _
  | cons _ ih =>
    rw [utf8_cons, utf8_cons]
    exact List.append_left_lt ih

end ManifestSync.Text
