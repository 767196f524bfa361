import Mathlib.Order.Bounds.Basic
import ManifestSync.Proofs.Text.Bytes

/-!
# Character boundaries

An offset is a boundary of a text (`IsBoundary`) if the text can be cut there, between two characters
or at an end. A slice is one exactly if its offsets are boundaries in order (`exists_slice?_iff`).
Every byte of ASCII stands between two boundaries, so that what a search in bytes finds at such a byte
can be cut off.

`floorBoundary` is the greatest boundary up to an offset (`isGreatest_floorBoundary`). A search that
goes down from the offset one byte at a time comes to it, and not below zero (`descend?_eq`).
-/

namespace ManifestSync.Text

/-- A text can be cut at an offset. -/
def IsBoundary (text : List Char) (offset : Nat) : Prop :=
  ∃ before behind, text = before ++ behind ∧ byteLength before = offset

variable {text : List Char} {offset start stop : Nat}

/-! ## Cutting at a boundary -/

/-- A text is cut behind its first part. -/
theorem isBoundary_append (before behind : List Char) :
    IsBoundary (before ++ behind) (byteLength before) := ⟨before, behind, rfl, rfl⟩

/-- A text can be cut at its start. -/
theorem isBoundary_zero (text : List Char) : IsBoundary text 0 := isBoundary_append [] text

/-- A text can be cut at its end. -/
theorem isBoundary_byteLength (text : List Char) : IsBoundary text (byteLength text) :=
  ⟨text, [], (List.append_nil text).symm, rfl⟩

/-- No boundary is behind the end. -/
theorem IsBoundary.le_byteLength (h : IsBoundary text offset) : offset ≤ byteLength text := by
  obtain ⟨before, behind, rfl, rfl⟩ := h
  rw [byteLength_append]
  exact Nat.le_add_right _ _

/-- As many bytes as a first part occupies are dropped as that part. -/
theorem dropBytes?_byteLength (before behind : List Char) :
    dropBytes? (byteLength before) (before ++ behind) = some behind := by
  induction before with
  | nil => rw [byteLength, List.nil_append, dropBytes?]
  | cons c before ih =>
    obtain ⟨n, hn⟩ := Nat.exists_eq_succ_of_ne_zero (Nat.pos_iff_ne_zero.1 c.utf8Size_pos)
    have hlen : byteLength (c :: before) = n + byteLength before + 1 := by
      rw [byteLength]
      omega
    have hsub : n + byteLength before + 1 - c.utf8Size = byteLength before := by omega
    rw [hlen, List.cons_append, dropBytes?, if_pos (by omega), hsub, ih]

/-- Bytes can be dropped exactly up to a boundary. -/
theorem isSome_dropBytes?_iff : (dropBytes? offset text).isSome = true ↔ IsBoundary text offset := by
  rw [Option.isSome_iff_exists]
  constructor
  · rintro ⟨behind, h⟩
    obtain ⟨before, rfl, rfl⟩ := exists_of_dropBytes? h
    exact isBoundary_append before behind
  · rintro ⟨before, behind, rfl, rfl⟩
    exact ⟨behind, dropBytes?_byteLength before behind⟩

instance (text : List Char) (offset : Nat) : Decidable (IsBoundary text offset) :=
  decidable_of_iff ((dropBytes? offset text).isSome = true) isSome_dropBytes?_iff

/-- A part of a text is cut out by the offsets at which it starts and ends. -/
theorem slice?_byteLength (u w v : List Char) :
    slice? (u ++ (w ++ v)) (byteLength u) (byteLength u + byteLength w) = some w := by
  rw [slice?, if_neg (Nat.not_lt.2 (Nat.le_add_right _ _)), dropBytes?_byteLength,
    Nat.add_sub_cancel_left]
  simp only [Option.bind_eq_bind, Option.bind_some, dropBytes?_byteLength, takeBytes_byteLength]
  rfl

/-- Two boundaries in order cut a text in three. -/
theorem IsBoundary.exists_between (hstart : IsBoundary text start) (hstop : IsBoundary text stop)
    (hle : start ≤ stop) : ∃ u w v, text = u ++ (w ++ v) ∧ byteLength u = start ∧
      byteLength u + byteLength w = stop := by
  obtain ⟨u, rest, rfl, rfl⟩ := hstart
  obtain ⟨u', v, heq, rfl⟩ := hstop
  rcases List.append_eq_append_iff.1 heq with ⟨w, rfl, rfl⟩ | ⟨w, rfl, rfl⟩
  · exact ⟨u, w, v, rfl, rfl, (byteLength_append u w).symm⟩
  · -- The second part starts no later, so it is the first one.
    rw [byteLength_append] at hle
    obtain rfl : w = [] := eq_nil_of_byteLength_eq_zero (by omega)
    exact ⟨u', [], rest, by simp, by simp, by simp [byteLength]⟩

/-- A text has a slice between two offsets exactly if they are boundaries in order. -/
theorem exists_slice?_iff : (∃ w, slice? text start stop = some w) ↔
    start ≤ stop ∧ IsBoundary text start ∧ IsBoundary text stop := by
  constructor
  · rintro ⟨w, h⟩
    obtain ⟨u, v, rfl, rfl, rfl⟩ := exists_of_slice? h
    refine ⟨Nat.le_add_right _ _, isBoundary_append u _, ?_⟩
    rw [← List.append_assoc, ← byteLength_append]
    exact isBoundary_append (u ++ w) v
  · rintro ⟨hle, hstart, hstop⟩
    obtain ⟨u, w, v, rfl, rfl, rfl⟩ := hstart.exists_between hstop hle
    exact ⟨w, slice?_byteLength u w v⟩

/-! ## Bytes of ASCII -/

/-- A byte of ASCII stands between two boundaries. -/
theorem isBoundary_of_ascii {b : UInt8} (hbyte : (utf8 text)[offset]? = some b)
    (hb : b.toNat < 128) : IsBoundary text offset ∧ IsBoundary text (offset + 1) := by
  obtain ⟨hlt, hget⟩ := List.getElem?_eq_some_iff.1 hbyte
  have hsplit : utf8 text = (utf8 text).take offset ++ b :: (utf8 text).drop (offset + 1) := by
    rw [← hget, ← List.drop_eq_getElem_cons hlt, List.take_append_drop]
  obtain ⟨u, v, rfl, hu, -⟩ := exists_of_utf8_eq_append hsplit hb
  obtain rfl : byteLength u = offset := by
    rw [← length_utf8, hu, List.length_take, Nat.min_eq_left (Nat.le_of_lt hlt)]
  refine ⟨isBoundary_append u _, ?_⟩
  have hsize : byteLength [Char.ofNat b.toNat] = 1 := by
    rw [← length_utf8, utf8_cons, utf8EncodeChar_ofNat hb]
    rfl
  rw [List.append_cons, ← hsize, ← byteLength_append]
  exact isBoundary_append _ v

/-- Behind the first part of a text stands the first byte of the next character. -/
theorem getElem?_utf8_append (before : List Char) (c : Char) (behind : List Char) :
    (utf8 (before ++ c :: behind))[byteLength before]? = (String.utf8EncodeChar c)[0]? := by
  have hpos := List.length_pos_iff.2 (String.utf8EncodeChar_ne_nil (c := c))
  rw [utf8_append, utf8_cons, List.getElem?_append_right (Nat.le_of_eq (length_utf8 before)),
    length_utf8, Nat.sub_self, List.getElem?_append_left hpos]

/-! ## The greatest boundary -/

/-- The boundary of a text that is reached by going down from an offset one byte at a time; none if
that goes below zero. -/
def descend? (text : List Char) : Nat → Option Nat
  | 0 => if IsBoundary text 0 then some 0 else none
  | offset + 1 => if IsBoundary text (offset + 1) then some (offset + 1) else descend? text offset

/-- Of the boundaries up to an offset the greatest is found. -/
theorem isGreatest_floorBoundary (text : List Char) (offset : Nat) :
    IsGreatest {boundary | IsBoundary text boundary ∧ boundary ≤ offset}
      (floorBoundary text offset) := by
  induction text generalizing offset with
  | nil =>
    refine ⟨⟨isBoundary_zero [], Nat.zero_le _⟩, fun boundary h => ?_⟩
    exact h.1.le_byteLength
  | cons c rest ih =>
    rw [floorBoundary]
    -- A boundary behind the first character is one of the rest.
    have hcases : ∀ {boundary}, IsBoundary (c :: rest) boundary → boundary = 0 ∨
        c.utf8Size ≤ boundary ∧ IsBoundary rest (boundary - c.utf8Size) := by
      rintro _ ⟨before, behind, heq, rfl⟩
      cases before with
      | nil => exact .inl rfl
      | cons c' before =>
        obtain ⟨rfl, rfl⟩ := List.cons.inj heq
        rw [byteLength, Nat.add_sub_cancel_left]
        exact .inr ⟨Nat.le_add_right _ _, isBoundary_append before behind⟩
    split_ifs with hsize
    · obtain ⟨⟨⟨before, behind, hrest, hlen⟩, hle⟩, hgreatest⟩ := ih (offset - c.utf8Size)
      refine ⟨⟨⟨c :: before, behind, by rw [hrest]; rfl, by rw [byteLength, hlen]⟩, by omega⟩, ?_⟩
      rintro boundary ⟨hboundary, hle'⟩
      rcases hcases hboundary with rfl | ⟨hfirst, hbehind⟩
      · exact Nat.zero_le _
      · have := hgreatest ⟨hbehind, Nat.sub_le_sub_right hle' _⟩
        omega
    · refine ⟨⟨isBoundary_zero _, Nat.zero_le _⟩, ?_⟩
      rintro boundary ⟨hboundary, hle'⟩
      rcases hcases hboundary with rfl | ⟨hfirst, -⟩
      · exact Nat.le_refl 0
      · omega

/-- Going down from an offset comes to the greatest boundary up to it. -/
theorem descend?_eq_of_isGreatest {boundary : Nat}
    (h : IsGreatest {boundary | IsBoundary text boundary ∧ boundary ≤ offset} boundary) :
    descend? text offset = some boundary := by
  induction offset with
  | zero =>
    obtain rfl : boundary = 0 := Nat.le_zero.1 h.1.2
    exact if_pos h.1.1
  | succ offset ih =>
    rw [descend?]
    split_ifs with hhere
    · exact congrArg some (Nat.le_antisymm (h.2 ⟨hhere, Nat.le_refl _⟩) h.1.2)
    · refine ih ⟨⟨h.1.1, ?_⟩, fun b hb => h.2 ⟨hb.1, Nat.le_succ_of_le hb.2⟩⟩
      refine Nat.le_of_lt_succ (Nat.lt_of_le_of_ne h.1.2 ?_)
      rintro rfl
      exact hhere h.1.1

/-- Going down from an offset, or from the end if it is behind that, comes to the greatest boundary
up to the offset. -/
theorem descend?_eq (text : List Char) (offset : Nat) :
    descend? text (min offset (byteLength text)) = some (floorBoundary text offset) := by
  obtain ⟨⟨hboundary, hle⟩, hgreatest⟩ := isGreatest_floorBoundary text offset
  refine descend?_eq_of_isGreatest ⟨⟨hboundary, le_min hle hboundary.le_byteLength⟩, ?_⟩
  exact fun b hb => hgreatest ⟨hb.1, Nat.le_trans hb.2 (Nat.min_le_left _ _)⟩

end ManifestSync.Text
