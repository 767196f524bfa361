import Mathlib.Data.List.Sort
import ManifestSync.Proofs.Scan.DocSearch
import ManifestSync.Scan.Extraction

/-!
# Which block comments are documentation comments

A documentation comment is a block comment that starts with `/**`, is closed and is more than `/**/`
(`Segment.IsDoc`). The search for them does not walk over the text but looks for `/**` and asks the map
of regions for the bytes around it. `extents_docComments` says what that finds: the documentation
comments, with two exceptions. One that stands behind a star behind a comment, as in `/* a */*/** b */`,
is not found, since the map counts that star as a part of the comment in front of it
(`Segment.IsHidden`). And in a comment that begins with `/*//**`, as `/*//** b */`, one is found though
none begins there, since the first three bytes look like the end of another comment
(`Segment.HoldsDoc`).

The proof is about single offsets first: what the search looks for at an offset stands in one of these
segments (`docAt_iff`). A `/**` in a block comment, but not at its start, opens nothing unless a `*/`
stands right in front of it, and behind the opening of the comment that would have closed it
(`start_eq_add_three`); at its start the segment in front decides (`docAt_of_isDoc`). Each
segment has at most one of these offsets, so no comment that is found runs over another one, and the
two lists are in the order of the text with the same members.
-/

namespace ManifestSync

namespace Source

/-! ## Documentation comments -/

namespace Segment

/-- A documentation comment: a block comment that starts with two stars and is closed, not by the
second one of these. -/
def IsDoc (s : Segment) : Prop :=
  s.region = .blockComment ∧ [slash, star, star] <+: s.bytes ∧ [star, slash] <:+ s.bytes.drop 2 ∧
    s.bytes ≠ [slash, star, star, slash]

/-- A comment that begins with a slash right behind its opening and holds, from the next byte on, what
reads as a documentation comment. -/
def HoldsDoc (s : Segment) : Prop :=
  s.region = .blockComment ∧ [slash, star, slash, slash, star, star] <+: s.bytes ∧
    [star, slash] <:+ s.bytes.drop 6

/-- The byte in front of a segment is a star behind a comment. -/
def IsHidden (bytes : List UInt8) (s : Segment) : Prop :=
  0 < s.start ∧ StarBehindComment bytes (s.start - 1)

instance (s : Segment) : Decidable s.IsDoc := inferInstanceAs (Decidable (_ ∧ _))

instance (s : Segment) : Decidable s.HoldsDoc := inferInstanceAs (Decidable (_ ∧ _))

instance (bytes : List UInt8) (s : Segment) : Decidable (s.IsHidden bytes) :=
  inferInstanceAs (Decidable (_ ∧ _))

/-- The extent of what is found in a segment. -/
def found? (bytes : List UInt8) (s : Segment) : Option (Nat × Nat) :=
  if s.IsDoc ∧ ¬ s.IsHidden bytes then some (s.start, s.stop)
  else if s.HoldsDoc then some (s.start + 3, s.stop)
  else none

end Segment

variable {bytes : List UInt8} {s : Segment}

/-- A byte that closes nothing is followed by the rest of the comment. -/
theorem blockRest_cons {b : UInt8} {rest : List UInt8}
    (h : b ≠ star ∨ rest.head? ≠ some slash) : blockRest (b :: rest) = b :: blockRest rest := by
  rw [blockRest, if_neg fun hclose => h.elim (· hclose.1) (· hclose.2)]

/-- What closes a comment that begins with a star closes it behind that star. -/
theorem isSuffix_blockRest_of_cons {z : List UInt8} (hhead : z.head? ≠ some slash)
    (h : [star, slash] <:+ star :: blockRest z) : [star, slash] <:+ blockRest z := by
  rcases List.suffix_cons_iff.1 h with heq | hsuffix
  · obtain ⟨-, heq⟩ := List.cons.inj heq
    obtain ⟨more, hmore⟩ := blockRest_isPrefix z
    rw [← heq] at hmore
    rw [← hmore] at hhead
    exact absurd rfl hhead
  · exact hsuffix

/-- Behind an opening, what reads as another comment is a part of the comment. -/
theorem blockRest_slashes (z : List UInt8) : blockRest (slash :: slash :: star :: star :: z) =
    slash :: slash :: star :: blockRest (star :: z) := by
  have hhead : (star :: z).head? ≠ some slash := fun h => absurd (Option.some.inj h) (by decide)
  rw [blockRest_cons (.inl (by decide)), blockRest_cons (.inl (by decide)),
    blockRest_cons (.inr hhead)]

/-- What a documentation comment is in the text. -/
theorem isDoc_iff (hs : s ∈ segments 0 bytes) :
    s.IsDoc ↔ s.region = .blockComment ∧ ∃ z, bytes.drop s.start = slash :: star :: star :: z ∧
      z.head? ≠ some slash ∧ [star, slash] <:+ blockRest z ∧
      s.stop = s.start + 3 + (blockRest z).length := by
  refine and_congr_right fun hblock => ?_
  obtain ⟨tail, hdrop, hbytes⟩ := exists_of_blockComment hs hblock
  rw [Segment.stop, hdrop, hbytes]
  constructor
  · rintro ⟨hopens, hclosed, hne⟩
    simp only [List.cons_prefix_cons, true_and] at hopens
    obtain ⟨more, hmore⟩ := hopens
    obtain ⟨z', hz⟩ := blockRest_isPrefix tail
    rw [← hmore] at hz
    obtain ⟨z, rfl⟩ : ∃ z, tail = star :: z := ⟨more ++ z', hz.symm⟩
    have hhead : z.head? ≠ some slash := by
      intro hhead
      rw [blockRest, if_pos ⟨rfl, hhead⟩] at hne
      exact hne rfl
    rw [blockRest_cons (.inr hhead)] at hclosed ⊢
    refine ⟨z, rfl, hhead, isSuffix_blockRest_of_cons hhead hclosed, ?_⟩
    simp only [List.length_cons]
    omega
  · rintro ⟨z, htail, hhead, hclosed, -⟩
    obtain rfl : tail = star :: z := by simpa using htail
    rw [blockRest_cons (.inr hhead)]
    refine ⟨List.prefix_append [slash, star, star] _, hclosed.trans (List.suffix_cons _ _), ?_⟩
    intro heq
    have hshort : blockRest z = [slash] := by simpa using heq
    rw [hshort] at hclosed
    exact absurd hclosed.length_le (by decide)

/-- What a comment that holds one is in the text. -/
theorem holdsDoc_iff (hs : s ∈ segments 0 bytes) :
    s.HoldsDoc ↔ s.region = .blockComment ∧
      ∃ z, bytes.drop s.start = slash :: star :: slash :: slash :: star :: star :: z ∧
        z.head? ≠ some slash ∧ [star, slash] <:+ blockRest z ∧
        s.stop = s.start + 6 + (blockRest z).length := by
  refine and_congr_right fun hblock => ?_
  obtain ⟨tail, hdrop, hbytes⟩ := exists_of_blockComment hs hblock
  rw [Segment.stop, hdrop, hbytes]
  constructor
  · rintro ⟨hopens, hclosed⟩
    simp only [List.cons_prefix_cons, true_and] at hopens
    obtain ⟨z, rfl⟩ := hopens.trans (blockRest_isPrefix tail)
    rw [List.cons_append, List.cons_append, List.cons_append, List.cons_append, List.nil_append,
      blockRest_slashes] at hclosed ⊢
    have hhead : z.head? ≠ some slash := by
      intro hhead
      rw [blockRest, if_pos ⟨rfl, hhead⟩] at hclosed
      exact absurd hclosed.length_le (by decide)
    rw [blockRest_cons (.inr hhead)] at hclosed ⊢
    refine ⟨z, rfl, hhead, hclosed, ?_⟩
    simp only [List.length_cons]
    omega
  · rintro ⟨z, htail, hhead, hclosed, -⟩
    obtain rfl : tail = slash :: slash :: star :: star :: z := by simpa using htail
    rw [blockRest_slashes, blockRest_cons (.inr hhead)]
    exact ⟨List.prefix_append [slash, star, slash, slash, star, star] _, hclosed⟩

/-- A comment that holds one is none itself. -/
theorem Segment.not_isDoc_of_holdsDoc (h : s.HoldsDoc) : ¬ s.IsDoc := by
  rintro ⟨-, ⟨z, hz⟩, -⟩
  obtain ⟨z', hz'⟩ := h.2.1
  rw [← hz'] at hz
  have hthird := congrArg (·[2]?) hz
  exact absurd (Option.some.inj hthird) (by decide)

/-- A documentation comment is found unless it is hidden. -/
theorem Segment.found?_of_isDoc (h : s.IsDoc) :
    s.found? bytes = if s.IsHidden bytes then none else some (s.start, s.stop) := by
  have hholds : ¬ s.HoldsDoc := fun hholds => not_isDoc_of_holdsDoc hholds h
  unfold found?
  split_ifs <;> simp_all

/-- What a comment holds is found. -/
theorem Segment.found?_of_holdsDoc (h : s.HoldsDoc) :
    s.found? bytes = some (s.start + 3, s.stop) := by
  rw [found?, if_neg fun hdoc => not_isDoc_of_holdsDoc h hdoc.1, if_pos h]

/-- Where a block comment ends. -/
theorem stop_of_blockComment (hs : s ∈ segments 0 bytes) (hblock : s.region = .blockComment)
    {tail : List UInt8} (hdrop : bytes.drop s.start = slash :: star :: tail) :
    s.stop = s.start + 2 + (blockRest tail).length := by
  obtain ⟨tail', hdrop', hbytes⟩ := exists_of_blockComment hs hblock
  obtain rfl : tail = tail' := by simpa using hdrop.symm.trans hdrop'
  rw [Segment.stop, hbytes, List.length_cons, List.length_cons]
  omega

/-- A close in front of an offset, in bytes. -/
theorem getElem?_of_isSuffix_take {start : Nat} (hle : start ≤ bytes.length)
    (h : [star, slash] <:+ bytes.take start) :
    2 ≤ start ∧ bytes[start - 2]? = some star ∧ bytes[start - 1]? = some slash := by
  obtain ⟨x, hx⟩ := h
  have hlength := congrArg List.length hx
  rw [List.length_append, List.length_take, List.length_cons, List.length_cons,
    List.length_nil] at hlength
  refine ⟨by omega, ?_⟩
  rw [← List.getElem?_take_of_lt (i := start - 2) (j := start) (by omega),
    ← List.getElem?_take_of_lt (i := start - 1) (j := start) (by omega), ← hx,
    List.getElem?_append_right (by omega), List.getElem?_append_right (by omega),
    show start - 2 - x.length = 0 by omega, show start - 1 - x.length = 1 by omega]
  exact ⟨rfl, rfl⟩

/-- A block comment that ends within the text is closed. -/
theorem isSuffix_take_stop (hs : s ∈ segments 0 bytes) (hblock : s.region = .blockComment)
    (hlt : s.stop < bytes.length) : [star, slash] <:+ bytes.take s.stop := by
  obtain ⟨tail, hdrop, hbytes⟩ := exists_of_blockComment hs hblock
  have htake : bytes.take s.stop = bytes.take s.start ++ s.bytes := by
    rw [Segment.stop, List.take_add, ← List.prefix_iff_eq_take.1 (bytes_isPrefix hs)]
  rcases blockRest_eq_or_isSuffix tail with hall | hclosed
  · have hlength := congrArg List.length (hbytes.trans ((congrArg _ (congrArg _ hall)).trans hdrop.symm))
    rw [List.length_drop] at hlength
    unfold Segment.stop at hlt
    omega
  · rw [htake, hbytes]
    exact hclosed.trans ⟨bytes.take s.start ++ [slash, star], by simp⟩

end Source

namespace Scan

open Source

variable {bytes : List UInt8} {s : Segment} {start stop : Nat}

/-! ## From what is looked for to the segments -/

/-- What the search looks for begins with a slash. -/
theorem DocAt.getElem?_start (h : DocAt bytes start stop) : bytes[start]? = some slash := by
  obtain ⟨z, htext, -⟩ := h.text
  rw [← List.head?_drop, htext]
  rfl

/-- The search does not look for what stands behind a star behind a comment. -/
theorem DocAt.not_isHidden (h : DocAt bytes s.start stop) : ¬ s.IsHidden bytes := by
  rintro ⟨hpos, hhidden⟩
  have hregion := regionAt_of_starBehindComment hhidden
  have hstar := (followsSlash_of_starBehindComment hhidden).1
  have hstart : s.start < bytes.length := (List.getElem?_eq_some_iff.1 h.getElem?_start).1
  rcases h.front with hzero | hfront | hclose
  · omega
  · rw [hregion] at hfront
    exact nomatch hfront
  · -- A star does not close the comment in front.
    have hslash := (getElem?_of_isSuffix_take (Nat.le_of_lt hstart) hclose).2.2
    exact absurd (Option.some.inj (hstar.symm.trans hslash)) (by decide)

/-- In a block comment, but not at its start, the search looks only for what stands behind `/*/`. -/
theorem start_eq_add_three (h : DocAt bytes start stop) (hs : s ∈ segments 0 bytes)
    (hblock : s.region = .blockComment) (hin : s.Has start) (hne : start ≠ s.start) :
    start = s.start + 3 ∧ ∃ z, bytes.drop s.start = slash :: star :: slash :: z := by
  obtain ⟨tail, hdrop, hbytes⟩ := exists_of_blockComment hs hblock
  obtain ⟨hle, hlt⟩ := hin
  have hbyte : ∀ k, bytes[s.start + k]? = (slash :: star :: tail)[k]? := by
    intro k
    rw [← hdrop, List.getElem?_drop]
  have hslash := h.getElem?_start
  -- The byte in front of it is in the same comment, so a close has to stand there.
  have hregion : regionAt (regions bytes) (start - 1) = .blockComment :=
    regionAt_of_blockComment hs ⟨by omega, by omega⟩ hblock
  have hclose : [star, slash] <:+ bytes.take start := by
    rcases h.front with hzero | hfront | hclose
    · omega
    · rw [hregion] at hfront
      exact nomatch hfront
    · exact hclose
  obtain ⟨-, hstar, hbefore⟩ := getElem?_of_isSuffix_take
    (Nat.le_of_lt (Nat.lt_of_lt_of_le hlt (stop_le_length hs))) hclose
  obtain ⟨k, rfl⟩ := Nat.exists_eq_add_of_le hle
  match k with
  | 0 => exact absurd rfl hne
  | 1 =>
    rw [hbyte] at hslash
    exact absurd (Option.some.inj hslash) (by decide)
  | 2 =>
    rw [show s.start + 2 - 1 = s.start + 1 from rfl, hbyte] at hbefore
    exact absurd (Option.some.inj hbefore) (by decide)
  | 3 =>
    rw [show s.start + 3 - 1 = s.start + 2 from rfl, hbyte] at hbefore
    obtain ⟨z, rfl⟩ := List.head?_eq_some_iff.1 ((List.head?_eq_getElem? ..).trans hbefore)
    exact ⟨rfl, z, hdrop⟩
  | k + 4 =>
    -- Behind the opening the close would have been that of the comment.
    rw [show s.start + (k + 4) - 2 = s.start + (k + 2) by omega, hbyte] at hstar
    rw [show s.start + (k + 4) - 1 = s.start + (k + 3) by omega, hbyte] at hbefore
    have hshort : (blockRest tail).length ≤ k + 2 := length_blockRest_le hstar hbefore
    rw [Segment.stop, hbytes, List.length_cons, List.length_cons] at hlt
    omega

/-- What the search looks for at an offset is found in a segment. -/
theorem exists_found?_of_docAt (h : DocAt bytes start stop) :
    ∃ s ∈ segments 0 bytes, s.found? bytes = some (start, stop) := by
  obtain ⟨z, htext, hhead, hclosed, hstop⟩ := h.text
  have hslash := h.getElem?_start
  have hstart : start < bytes.length := (List.getElem?_eq_some_iff.1 hslash).1
  obtain ⟨s, hs, hin⟩ := exists_has hstart
  -- A slash is no star behind a comment, so the segment is a block comment.
  have hstar : ¬ StarBehindComment bytes start := by
    intro hstar
    have hbyte := (followsSlash_of_starBehindComment hstar).1
    exact absurd (Option.some.inj (hslash.symm.trans hbyte)) (by decide)
  have hblock : s.region = .blockComment := by
    rw [← regionAt_of_has hs hin hstar, h.region]
  refine ⟨s, hs, ?_⟩
  by_cases hfirst : start = s.start
  · subst hfirst
    have hend : s.stop = s.start + 3 + (blockRest z).length := by
      rw [stop_of_blockComment hs hblock htext, blockRest_cons (.inr hhead), List.length_cons]
      omega
    have hdoc : s.IsDoc := (isDoc_iff hs).2 ⟨hblock, z, htext, hhead, hclosed, hend⟩
    rw [Segment.found?_of_isDoc hdoc, if_neg h.not_isHidden, hstop, hend]
  · obtain ⟨rfl, z', hdrop⟩ := start_eq_add_three h hs hblock hin hfirst
    have hz : z' = slash :: star :: star :: z := by
      rw [← htext, ← List.drop_drop, hdrop]
      rfl
    subst hz
    have hend : s.stop = s.start + 6 + (blockRest z).length := by
      rw [stop_of_blockComment hs hblock hdrop, blockRest_slashes, blockRest_cons (.inr hhead)]
      simp only [List.length_cons]
      omega
    have hholds : s.HoldsDoc := (holdsDoc_iff hs).2 ⟨hblock, z, hdrop, hhead, hclosed, hend⟩
    rw [Segment.found?_of_holdsDoc hholds, hstop, hend, Nat.add_right_comm _ 3]

/-- A documentation comment that is not hidden is one that the search looks for. -/
theorem docAt_of_isDoc (hs : s ∈ segments 0 bytes) (h : s.IsDoc) (hvisible : ¬ s.IsHidden bytes) :
    DocAt bytes s.start s.stop := by
  obtain ⟨hblock, z, hdrop, hhead, hclosed, hstop⟩ := (isDoc_iff hs).1 h
  refine ⟨⟨z, hdrop, hhead, hclosed, hstop⟩, regionAt_of_blockComment hs (has_start hs) hblock, ?_⟩
  by_cases hzero : s.start = 0
  · exact .inl hzero
  obtain ⟨p, hp, hin, hend⟩ := exists_stop_eq_start hs (Nat.pos_of_ne_zero hzero)
  right
  by_cases hcomment : p.region = .blockComment
  · right
    rw [← hend]
    exact isSuffix_take_stop hp hcomment
      (hend ▸ Nat.lt_of_lt_of_le (has_start hs).2 (stop_le_length hs))
  · left
    have hregion : regionAt (regions bytes) (s.start - 1) = p.region :=
      regionAt_of_has hp hin fun hstar => hvisible ⟨Nat.pos_of_ne_zero hzero, hstar⟩
    have hline : p.region ≠ .lineComment := by
      intro hline
      have hslash : bytes[p.stop]? = some slash := by
        rw [hend, ← List.head?_drop, hdrop]
        rfl
      exact absurd (getElem?_stop_of_lineComment hp hline hslash) (by decide)
    rw [hregion]
    cases hp : p.region <;> first | rfl | contradiction

/-- What a comment holds that begins with a slash is one that the search looks for. -/
theorem docAt_of_holdsDoc (hs : s ∈ segments 0 bytes) (h : s.HoldsDoc) :
    DocAt bytes (s.start + 3) s.stop := by
  obtain ⟨hblock, z, hdrop, hhead, hclosed, hstop⟩ := (holdsDoc_iff hs).1 h
  refine ⟨⟨z, ?_, hhead, hclosed, ?_⟩, regionAt_of_blockComment hs ⟨by omega, by omega⟩ hblock, ?_⟩
  · rw [← List.drop_drop, hdrop]
    rfl
  · omega
  · refine .inr (.inr ?_)
    rw [List.take_add, hdrop]
    exact ⟨bytes.take s.start ++ [slash], by simp⟩

/-- The search looks for what is found in the segments. -/
theorem docAt_iff : DocAt bytes start stop ↔
    ∃ s ∈ segments 0 bytes, s.found? bytes = some (start, stop) := by
  refine ⟨exists_found?_of_docAt, ?_⟩
  rintro ⟨s, hs, hfound⟩
  unfold Segment.found? at hfound
  split_ifs at hfound with hdoc hholds
  · obtain ⟨rfl, rfl⟩ := Prod.mk.inj (Option.some.inj hfound)
    exact docAt_of_isDoc hs hdoc.1 hdoc.2
  · obtain ⟨rfl, rfl⟩ := Prod.mk.inj (Option.some.inj hfound)
    exact docAt_of_holdsDoc hs hholds

/-! ## The comments in the order of the text -/

/-- What is found in a segment lies in it, up to its end. -/
theorem bounds_of_found? (hs : s ∈ segments 0 bytes) (h : s.found? bytes = some (start, stop)) :
    s.start ≤ start ∧ start < stop ∧ stop = s.stop := by
  unfold Segment.found? at h
  split_ifs at h with hdoc hholds
  · obtain ⟨rfl, rfl⟩ := Prod.mk.inj (Option.some.inj h)
    exact ⟨Nat.le_refl _, (has_start hs).2, rfl⟩
  · obtain ⟨rfl, rfl⟩ := Prod.mk.inj (Option.some.inj h)
    obtain ⟨-, z, -, -, -, hstop⟩ := (holdsDoc_iff hs).1 hholds
    exact ⟨Nat.le_add_right _ _, by omega, rfl⟩

/-- What is found in the segments is in the order of the text. -/
theorem pairwise_filterMap_found? (bytes : List UInt8) :
    ((segments 0 bytes).filterMap (Segment.found? bytes)).Pairwise (·.1 < ·.1) := by
  have hpairwise : (segments 0 bytes).Pairwise fun s s' =>
      s ∈ segments 0 bytes ∧ s' ∈ segments 0 bytes ∧ s.stop ≤ s'.start :=
    List.Pairwise.imp_of_mem (fun hs hs' hle => ⟨hs, hs', hle⟩) (pairwise_segments 0 bytes)
  refine hpairwise.filterMap _ ?_
  rintro s s' ⟨hs, hs', hle⟩ ⟨start, stop⟩ hfound ⟨start', stop'⟩ hfound'
  obtain ⟨-, hlt, rfl⟩ := bounds_of_found? hs hfound
  obtain ⟨hle', -⟩ := bounds_of_found? hs' hfound'
  exact Nat.lt_of_lt_of_le hlt (Nat.le_trans hle hle')

/-- The extents of documentation comments that are found. -/
def extents (docs : List DocComment) : List (Nat × Nat) :=
  docs.map fun d => (d.start, d.stop)

/-- The documentation comments that are found are in the order of the text. -/
theorem pairwise_extents_docComments (chars : List Char) :
    (extents (docComments (regions (Text.utf8 chars)) chars)).Pairwise (·.1 < ·.1) := by
  unfold extents
  rw [List.pairwise_map]
  refine List.Pairwise.imp_of_mem (fun {d d'} hd _ hle => ?_)
    (pairwise_docCommentsFrom (regions (Text.utf8 chars)) [] 0 0 chars)
  obtain ⟨z, -, -, -, hstop⟩ := (docAt_of_mem_docComments hd).text
  exact Nat.lt_of_lt_of_le (by omega) hle

/-- A documentation comment is found exactly if the search looks for it. -/
theorem mem_extents_docComments_iff {chars : List Char} :
    (start, stop) ∈ extents (docComments (regions (Text.utf8 chars)) chars) ↔
      DocAt (Text.utf8 chars) start stop := by
  unfold extents
  rw [List.mem_map]
  constructor
  · rintro ⟨d, hd, heq⟩
    obtain ⟨rfl, rfl⟩ := Prod.mk.inj heq
    exact docAt_of_mem_docComments hd
  · intro h
    obtain ⟨d, hd, ⟨rfl, rfl⟩ | ⟨hstart, hstop⟩⟩ := exists_mem_docComments h
    · exact ⟨d, hd, rfl⟩
    · -- One that runs over it would be in the same segment, where there is only one.
      exfalso
      obtain ⟨s, hs, hfound⟩ := docAt_iff.1 h
      obtain ⟨s', hs', hfound'⟩ := docAt_iff.1 (docAt_of_mem_docComments hd)
      obtain ⟨hle, hlt, rfl⟩ := bounds_of_found? hs hfound
      obtain ⟨hle', hlt', hend⟩ := bounds_of_found? hs' hfound'
      rw [hend] at hstop
      obtain rfl := eq_of_has hs hs' (i := start) ⟨hle, hlt⟩
        ⟨Nat.le_trans hle' (Nat.le_of_lt hstart), hstop⟩
      obtain ⟨hsame, -⟩ := Prod.mk.inj (Option.some.inj (hfound.symm.trans hfound'))
      exact absurd hsame.symm (Nat.ne_of_lt hstart)

/-- The documentation comments of a text are all that is found exactly if none is hidden and no
comment holds what reads as one. -/
theorem filterMap_found?_eq_iff (bytes : List UInt8) :
    (segments 0 bytes).filterMap (Segment.found? bytes) =
        ((segments 0 bytes).filter (·.IsDoc)).map (fun g => (g.start, g.stop)) ↔
      ∀ g ∈ segments 0 bytes, ¬ (g.IsDoc ∧ g.IsHidden bytes) ∧ ¬ g.HoldsDoc := by
  constructor
  · intro heq g hg
    have hmem : ∀ x, (∃ s ∈ segments 0 bytes, s.found? bytes = some x) ↔
        ∃ s ∈ segments 0 bytes, s.IsDoc ∧ (s.start, s.stop) = x := by
      intro x
      rw [← List.mem_filterMap, heq]
      simp [and_assoc]
    constructor
    · rintro ⟨hdoc, hhidden⟩
      obtain ⟨s, hs, hfound⟩ := (hmem (g.start, g.stop)).2 ⟨g, hg, hdoc, rfl⟩
      obtain ⟨hle, hlt, hstop⟩ := bounds_of_found? hs hfound
      obtain rfl := eq_of_has hs hg (i := g.start) ⟨hle, hstop ▸ hlt⟩ (has_start hg)
      rw [Segment.found?_of_isDoc hdoc, if_pos hhidden] at hfound
      exact nomatch hfound
    · intro hholds
      have hfound : g.found? bytes = some (g.start + 3, g.stop) := Segment.found?_of_holdsDoc hholds
      obtain ⟨-, hlt, -⟩ := bounds_of_found? hg hfound
      obtain ⟨s, hs, hdoc, hsame⟩ := (hmem _).1 ⟨g, hg, hfound⟩
      obtain ⟨hstart, -⟩ := Prod.mk.inj hsame
      obtain rfl := eq_of_has hs hg (has_start hs) ⟨by omega, by omega⟩
      exact Segment.not_isDoc_of_holdsDoc hholds hdoc
  · intro hnone
    rw [← List.filterMap_eq_map, ← List.filterMap_eq_filter, List.filterMap_filterMap]
    refine List.filterMap_congr fun g hg => ?_
    obtain ⟨hvisible, hholds⟩ := hnone g hg
    rw [Segment.found?, if_neg hholds]
    by_cases hdoc : g.IsDoc
    · rw [if_pos ⟨hdoc, fun h => hvisible ⟨hdoc, h⟩⟩]
      simp [hdoc]
    · rw [if_neg fun h => hdoc h.1]
      simp [Option.guard, hdoc]

/-- What the search for documentation comments finds. In the order of the text, it finds each
documentation comment that does not stand behind a star behind a comment, and in each comment that
begins with `/*//**` what reads as one. So it finds the documentation comments, each once, and nothing
else exactly if none stands behind such a star and no comment begins so and goes on to its close. -/
theorem extents_docComments (s : SourceText) :
    extents (docComments s.regions s.chars) =
        (segments 0 s.bytes).filterMap (Segment.found? s.bytes) ∧
      (extents (docComments s.regions s.chars) =
          ((segments 0 s.bytes).filter (·.IsDoc)).map (fun g => (g.start, g.stop)) ↔
        ∀ g ∈ segments 0 s.bytes, ¬ (g.IsDoc ∧ g.IsHidden s.bytes) ∧ ¬ g.HoldsDoc) := by
  have hfound : extents (docComments s.regions s.chars) =
      (segments 0 s.bytes).filterMap (Segment.found? s.bytes) := by
    have hirrefl : Std.Irrefl fun p q : Nat × Nat => p.1 < q.1 := ⟨fun p => Nat.lt_irrefl p.1⟩
    have hantisymm : Std.Antisymm fun p q : Nat × Nat => p.1 < q.1 :=
      ⟨fun p q h h' => absurd h (Nat.lt_asymm h')⟩
    rw [s.regions_eq, s.bytes_eq]
    refine (pairwise_extents_docComments s.chars).eq_of_mem_iff
      (pairwise_filterMap_found? (Text.utf8 s.chars)) ?_
    rintro ⟨start, stop⟩
    rw [mem_extents_docComments_iff, docAt_iff, List.mem_filterMap]
  exact ⟨hfound, by rw [hfound]; exact filterMap_found?_eq_iff s.bytes⟩

/-- Not only documentation comments are found: one begins within another comment. -/
theorem not_forall_extents_docComments :
    ¬ ∀ s : SourceText, extents (docComments s.regions s.chars) =
      ((segments 0 s.bytes).filter (·.IsDoc)).map (fun g => (g.start, g.stop)) := by
  intro h
  have hs := h (.ofChars "/*//** x */".toList)
  revert hs
  decide +kernel

end Scan

end ManifestSync
