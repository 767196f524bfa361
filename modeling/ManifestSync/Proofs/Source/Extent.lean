import Mathlib.Data.List.Pairwise
import ManifestSync.Proofs.Source.RegionMap

/-!
# The extents of the segments

The segments of a text lie one behind the other (`pairwise_segments`) and cover it
(`exists_has`), so each offset lies in exactly one of them. The map has a byte in the region of
its segment unless it is a star behind a comment (`regionAt_of_has`).

Of two kinds of segments more is said, since what follows them shows that they ended. A block comment
is all that is left of the text or ends with `*/` (`blockRest_eq_or_isSuffix`), and has no other `*/`
behind its opening (`length_blockRest_le`). A line comment is followed by a line feed, if by anything
(`getElem?_stop_of_lineComment`).
-/

namespace ManifestSync.Source

namespace Segment

/-- Offset behind the last byte of a segment. -/
def stop (s : Segment) : Nat := s.start + s.bytes.length

/-- An offset is that of a byte of a segment. -/
def Has (s : Segment) (i : Nat) : Prop := s.start ≤ i ∧ i < s.stop

end Segment

/-! ## One segment behind the other -/

/-- A segment begins with a byte of the text, and the text behind that byte decides the rest. -/
theorem exists_opening_of_mem_segments {offset : Nat} {bytes : List UInt8} {s : Segment}
    (h : s ∈ segments offset bytes) : ∃ b rest, bytes.drop (s.start - offset) = b :: rest ∧
      s.region = (opening b rest).1 ∧ s.bytes = b :: (opening b rest).2 := by
  fun_induction segments offset bytes with
  | case1 => exact absurd h List.not_mem_nil
  | case2 offset b rest more ih =>
    rcases List.mem_cons.1 h with rfl | h
    · exact ⟨b, rest, by simp, rfl, rfl⟩
    · obtain ⟨b', rest', hdrop, hregion, hbytes⟩ := ih h
      have hle := le_start_of_mem_segments h
      have hsub : s.start - offset = more.length + (s.start - (offset + 1 + more.length)) + 1 := by
        omega
      refine ⟨b', rest', ?_, hregion, hbytes⟩
      rw [hsub, List.drop_succ_cons, ← hdrop, List.drop_drop]

/-- A segment does not begin before the one in front of it ends. -/
theorem pairwise_segments (offset : Nat) (bytes : List UInt8) :
    (segments offset bytes).Pairwise (·.stop ≤ ·.start) := by
  fun_induction segments offset bytes with
  | case1 => exact .nil
  | case2 offset b rest more ih =>
    refine .cons (fun s hs => ?_) ih
    have hle := le_start_of_mem_segments hs
    simp only [Segment.stop, List.length_cons]
    omega

/-- Every offset from the first one on lies in a segment. -/
theorem exists_mem_segments {offset : Nat} {bytes : List UInt8} {i : Nat} (hle : offset ≤ i)
    (hlt : i < offset + bytes.length) : ∃ s ∈ segments offset bytes, s.Has i := by
  fun_induction segments offset bytes with
  | case1 =>
    rw [List.length_nil] at hlt
    omega
  | case2 offset b rest more ih =>
    rw [List.length_cons] at hlt
    by_cases hfirst : i < offset + 1 + more.length
    · refine ⟨_, List.mem_cons_self, hle, ?_⟩
      simp only [Segment.stop, List.length_cons]
      omega
    · have hmore : more.length ≤ rest.length := (opening_isPrefix b rest).length_le
      have hlength := List.length_drop (i := more.length) (l := rest)
      obtain ⟨s, hs, hhas⟩ := ih (by omega) (by omega)
      exact ⟨s, List.mem_cons_of_mem _ hs, hhas⟩

variable {bytes : List UInt8} {s s' : Segment} {i : Nat}

/-- Every offset of a text lies in one of its segments. -/
theorem exists_has (h : i < bytes.length) : ∃ s ∈ segments 0 bytes, s.Has i :=
  exists_mem_segments (Nat.zero_le i) (by rwa [Nat.zero_add])

/-- No offset lies in two segments. -/
theorem eq_of_has (hs : s ∈ segments 0 bytes) (hs' : s' ∈ segments 0 bytes) (h : s.Has i)
    (h' : s'.Has i) : s = s' := by
  by_contra hne
  have hsymm : Std.Symm fun s s' : Segment => s.stop ≤ s'.start ∨ s'.stop ≤ s.start :=
    ⟨fun _ _ => Or.symm⟩
  have hpairwise : (segments 0 bytes).Pairwise fun s s' => s.stop ≤ s'.start ∨ s'.stop ≤ s.start :=
    (pairwise_segments 0 bytes).imp .inl
  have happart := hpairwise.forall hs hs' hne
  obtain ⟨hstart, hstop⟩ := h
  obtain ⟨hstart', hstop'⟩ := h'
  omega

/-- The bytes of a segment are those of the text from its start on. -/
theorem bytes_isPrefix (hs : s ∈ segments 0 bytes) : s.bytes <+: bytes.drop s.start := by
  obtain ⟨b, rest, hdrop, -, hbytes⟩ := exists_opening_of_mem_segments hs
  rw [Nat.sub_zero] at hdrop
  rw [hdrop, hbytes]
  exact (List.prefix_cons_inj _).2 (opening_isPrefix b rest)

/-- A segment has its first byte. -/
theorem has_start (hs : s ∈ segments 0 bytes) : s.Has s.start := by
  obtain ⟨b, rest, -, -, hbytes⟩ := exists_opening_of_mem_segments hs
  refine ⟨Nat.le_refl _, ?_⟩
  rw [Segment.stop, hbytes, List.length_cons]
  omega

/-- A segment ends within the text. -/
theorem stop_le_length (hs : s ∈ segments 0 bytes) : s.stop ≤ bytes.length := by
  have hlength := (bytes_isPrefix hs).length_le
  have hpos := (has_start hs).2
  rw [List.length_drop] at hlength
  unfold Segment.stop at hpos ⊢
  omega

/-- In front of a segment that is not the first one, another one ends. -/
theorem exists_stop_eq_start (hs : s ∈ segments 0 bytes) (hpos : 0 < s.start) :
    ∃ p ∈ segments 0 bytes, p.Has (s.start - 1) ∧ p.stop = s.start := by
  have hlength := stop_le_length hs
  obtain ⟨hle, hlt⟩ := has_start hs
  obtain ⟨p, hp, hhas⟩ : ∃ p ∈ segments 0 bytes, p.Has (s.start - 1) := exists_has (by omega)
  refine ⟨p, hp, hhas, ?_⟩
  obtain ⟨hstart, hstop⟩ := hhas
  by_contra hne
  -- Otherwise it would have the first byte of the segment.
  have hsame := eq_of_has hp hs (i := s.start) ⟨by omega, by omega⟩ ⟨hle, hlt⟩
  rw [hsame] at hstart
  omega

/-! ## The region of a segment -/

/-- A token stands in a segment of its region. -/
theorem exists_segment_of_mem_tokensFrom {t : Token} (ht : t ∈ tokensFrom bytes 0) :
    ∃ s ∈ segments 0 bytes, s.Has t.offset ∧ t.region = s.region := by
  have hspot : t.spot ∈ (segments 0 bytes).flatMap Segment.spots :=
    map_spot_tokensFrom_zero bytes ▸ List.mem_map_of_mem ht
  obtain ⟨s, hs, hspot⟩ := List.mem_flatMap.1 hspot
  obtain ⟨hlow, hhigh, -⟩ := (s.exists_spots_iff t.offset).1 ⟨t.spot, hspot, rfl⟩
  exact ⟨s, hs, ⟨hlow, hhigh⟩, Segment.region_of_mem_spots hspot⟩

/-- The map has a byte in the region of its segment, unless the byte is a star behind a comment. -/
theorem regionAt_of_has (hs : s ∈ segments 0 bytes) (h : s.Has i)
    (hstar : ¬ StarBehindComment bytes i) : regionAt (regions bytes) i = s.region := by
  have hagrees := agrees_of_not_starBehindComment
    (Nat.lt_of_lt_of_le h.2 (stop_le_length hs)) hstar
  by_cases htoken : ∃ t ∈ tokensFrom bytes 0, t.offset = i
  · obtain ⟨t, ht, rfl⟩ := htoken
    obtain ⟨s', hs', h', hregion⟩ := exists_segment_of_mem_tokensFrom ht
    rw [hagrees.token t ht rfl, hregion, eq_of_has hs' hs h' h]
  · push Not at htoken
    obtain ⟨hmap, -, s', hs', hblock, rfl⟩ := hagrees.gap htoken
    -- The star of an opening lies in the segment that it opens.
    obtain ⟨b, rest, -, hregion, hbytes⟩ := exists_opening_of_mem_segments hs'
    have hlength := List.length_pos_of_ne_nil (opening_ne_nil (hregion.symm.trans hblock))
    have h' : s'.Has (s'.start + 1) := by
      refine ⟨Nat.le_succ _, ?_⟩
      rw [Segment.stop, hbytes, List.length_cons]
      omega
    rw [hmap, ← hblock, eq_of_has hs' hs h' h]

/-- The map has every byte of a block comment in it. -/
theorem regionAt_of_blockComment (hs : s ∈ segments 0 bytes) (h : s.Has i)
    (hblock : s.region = .blockComment) : regionAt (regions bytes) i = .blockComment := by
  by_cases hstar : StarBehindComment bytes i
  · exact regionAt_of_starBehindComment hstar
  · rw [regionAt_of_has hs h hstar, hblock]

/-! ## Where comments end -/

/-- What opens as a block comment is one. -/
theorem opening_of_blockComment {b : UInt8} {rest : List UInt8}
    (h : (opening b rest).1 = .blockComment) :
    ∃ tail, b = slash ∧ rest = star :: tail ∧ (opening b rest).2 = star :: blockRest tail := by
  unfold opening at h ⊢
  split_ifs at h ⊢ with hline hblock
  · obtain ⟨tail, rfl⟩ := List.head?_eq_some_iff.1 hblock.2
    exact ⟨tail, hblock.1, rfl, rfl⟩
  · revert h
    cases Quote.ofByte? b with
    | none => exact fun h => nomatch h
    | some q => exact fun h => absurd h q.region_ne_blockComment

/-- What opens as a line comment is one. -/
theorem opening_of_lineComment {b : UInt8} {rest : List UInt8}
    (h : (opening b rest).1 = .lineComment) : (opening b rest).2 = lineRest rest := by
  unfold opening at h ⊢
  split_ifs at h ⊢ with hline hblock
  · rfl
  · revert h
    cases Quote.ofByte? b with
    | none => exact fun h => nomatch h
    | some q => cases q <;> exact fun h => nomatch h

/-- A block comment in the text: its opening, and what belongs to it behind that. -/
theorem exists_of_blockComment (hs : s ∈ segments 0 bytes) (hblock : s.region = .blockComment) :
    ∃ tail, bytes.drop s.start = slash :: star :: tail ∧
      s.bytes = slash :: star :: blockRest tail := by
  obtain ⟨b, rest, hdrop, hregion, hbytes⟩ := exists_opening_of_mem_segments hs
  obtain ⟨tail, rfl, rfl, hmore⟩ := opening_of_blockComment (hregion.symm.trans hblock)
  rw [Nat.sub_zero] at hdrop
  exact ⟨tail, hdrop, by rw [hbytes, hmore]⟩

/-- A block comment is all that is left of the text or ends with `*/`. -/
theorem blockRest_eq_or_isSuffix (bytes : List UInt8) :
    blockRest bytes = bytes ∨ [star, slash] <:+ blockRest bytes := by
  induction bytes with
  | nil => exact .inl rfl
  | cons b rest ih =>
    rw [blockRest]
    split_ifs with hclose
    · exact .inr (List.suffix_refl _)
    · exact ih.imp (congrArg _) fun h => h.trans (List.suffix_cons _ _)

/-- A block comment does not go on behind a `*/`. -/
theorem length_blockRest_le {bytes : List UInt8} {j : Nat} (hstar : bytes[j]? = some star)
    (hslash : bytes[j + 1]? = some slash) : (blockRest bytes).length ≤ j + 2 := by
  induction bytes generalizing j with
  | nil => exact Nat.zero_le _
  | cons b rest ih =>
    rw [blockRest]
    split_ifs with hclose
    · exact Nat.le_add_left _ _
    · cases j with
      | zero =>
        refine absurd ⟨Option.some.inj hstar, ?_⟩ hclose
        rw [List.head?_eq_getElem?]
        exact hslash
      | succ j =>
        rw [List.length_cons]
        exact Nat.succ_le_succ (ih hstar hslash)

/-- A block comment does not end within bytes without a star. -/
theorem blockRest_append {part : List UInt8} (hpart : star ∉ part) (rest : List UInt8) :
    blockRest (part ++ rest) = part ++ blockRest rest := by
  induction part with
  | nil => rfl
  | cons b part ih =>
    obtain ⟨hb, hpart⟩ := not_or.1 fun h => hpart (List.mem_cons.2 h)
    rw [List.cons_append, blockRest, if_neg fun h => hb h.1.symm, ih hpart]
    rfl

/-- A line comment is followed by a line feed, if by anything. -/
theorem getElem?_stop_of_lineComment (hs : s ∈ segments 0 bytes) (hline : s.region = .lineComment)
    {b : UInt8} (h : bytes[s.stop]? = some b) : b = lineFeed := by
  obtain ⟨first, rest, hdrop, hregion, hbytes⟩ := exists_opening_of_mem_segments hs
  have hmore := opening_of_lineComment (hregion.symm.trans hline)
  rw [Nat.sub_zero] at hdrop
  have hstop : s.stop = s.start + ((lineRest rest).length + 1) := by
    rw [Segment.stop, hbytes, hmore, List.length_cons]
  -- Behind the comment stands what is left of the text from the end of the line on.
  have hbehind : rest[(lineRest rest).length]? = (rest.dropWhile (· ≠ lineFeed)).head? := by
    calc rest[(lineRest rest).length]?
        = (lineRest rest ++ rest.dropWhile (· ≠ lineFeed))[(lineRest rest).length]? := by
          rw [lineRest, List.takeWhile_append_dropWhile]
      _ = (rest.dropWhile (· ≠ lineFeed)).head? := by
          rw [List.getElem?_append_right (Nat.le_refl _), Nat.sub_self, List.head?_eq_getElem?]
  rw [hstop, ← List.getElem?_drop, hdrop, List.getElem?_cons_succ, hbehind] at h
  have hnot := List.head?_dropWhile_not (· ≠ lineFeed) rest
  rw [h] at hnot
  simpa using hnot

end ManifestSync.Source
