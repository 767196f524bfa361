import ManifestSync.Proofs.Source.State
import ManifestSync.Source.RegionMap
import ManifestSync.Text.Utf8

/-!
# The map of regions against the walk

The map has the region of every byte, and the walk a token for every byte save the star of an opening
`/*`. The map finds that star by the bytes alone: it is a `*` right behind a `/` that belongs to a
block comment. Such a `/` stands in one of three places. It opens a comment, and the `*` is the star
that has no token; it stands within a comment, and the `*` belongs to the comment in any case; or it
closes a comment, as in `/* a */* b`, and the `*` is a byte of code which the map takes for a part of
the comment.

`agrees_iff_not_starBehindComment` says that this third place is the only one at which the map and
the walk disagree. The state of the walk before the `*` tells the three places apart.
-/

namespace ManifestSync.Source

/-- The map says of a byte what the walk says of it. -/
structure Agrees (bytes : List UInt8) (i : Nat) : Prop where
  /-- The map has the region of the byte's token. -/
  token : ∀ t ∈ tokensFrom bytes 0, t.offset = i → regionAt (regions bytes) i = t.region
  /-- Where there is no token, the map has a block comment, and the byte is the star of the opening
  of one. -/
  gap : (∀ t ∈ tokensFrom bytes 0, t.offset ≠ i) → regionAt (regions bytes) i = .blockComment ∧
    bytes[i]? = some star ∧ ∃ s ∈ segments 0 bytes, s.region = .blockComment ∧ i = s.start + 1

/-- A byte is a `*` in code right behind a block comment. -/
def StarBehindComment (bytes : List UInt8) (i : Nat) : Prop :=
  ∃ t ∈ tokensFrom bytes 0, ∃ t' ∈ tokensFrom bytes 0, t.offset + 1 = i ∧ t'.offset = i ∧
    t.region = .blockComment ∧ t'.byte = star ∧ t'.region = .code

instance (bytes : List UInt8) (i : Nat) : Decidable (StarBehindComment bytes i) :=
  inferInstanceAs (Decidable (∃ t ∈ tokensFrom bytes 0, ∃ t' ∈ tokensFrom bytes 0, _))

/-! ## The regions of the walk -/

/-- The region of a byte is what the step from the state before it says. -/
theorem Walk.getElem?_regions (w : Walk) (bytes : List UInt8) (n : Nat) :
    (w.regions bytes)[n]? =
      bytes[n]?.map fun b => ((w.after n bytes).step b bytes[n + 1]?).1.getD .code := by
  induction bytes generalizing w n with
  | nil => simp [regions]
  | cons b rest ih =>
    rw [regions]
    cases n with
    | zero => simp [List.head?_eq_getElem?]
    | succ n => simp [ih]

/-- The tokens of a whole text are the bytes for which the step from the state before them gives a
region. -/
theorem mem_tokensFrom_zero_iff (bytes : List UInt8) (t : Token) :
    t ∈ tokensFrom bytes 0 ↔ bytes[t.offset]? = some t.byte ∧
      ((Walk.start.after t.offset bytes).step t.byte bytes[t.offset + 1]?).1 = some t.region ∧
      t.depth = (Walk.start.after t.offset bytes).depth := by
  unfold tokensFrom
  rw [List.drop_zero, Walk.mem_tokens_iff]
  constructor
  · rintro ⟨n, hoffset, h⟩
    obtain rfl : n = t.offset := by omega
    exact h
  · exact fun h => ⟨t.offset, (Nat.zero_add _).symm, h⟩

/-! ## The stars behind a comment -/

/-- Whether the byte before the `n`-th one of a list is a slash of a block comment; `behind` says so
for the first one. -/
def behindSlash (behind : Bool) (l : List (UInt8 × Region)) : Nat → Bool
  | 0 => behind
  | n + 1 => l[n]?.any fun x => x.2 == .blockComment && x.1 == slash

/-- The map counts a `*` right behind a slash of a block comment as block comment, and leaves every
other byte in its region. A slash is no star, so its own region is the one that the walk gave it. -/
theorem getElem?_absorbStars (behind : Bool) (l : List (UInt8 × Region)) (n : Nat) :
    (absorbStars behind l)[n]? =
      l[n]?.map fun x => if behindSlash behind l n && x.1 == star then .blockComment else x.2 := by
  induction l generalizing behind n with
  | nil => simp [absorbStars]
  | cons x rest ih =>
    obtain ⟨b, r⟩ := x
    rw [absorbStars]
    cases n with
    | zero => simp [behindSlash]
    | succ n =>
      -- Whether the first byte counts as a slash of a comment does not depend on what is made of it.
      have hslash : ((if behind && b == star then Region.blockComment else r) == .blockComment
          && b == slash) = (r == .blockComment && b == slash) := by
        by_cases hb : b = slash
        · subst hb
          have hne : (slash == star) = false := by decide
          simp [hne]
        · have hne : (b == slash) = false := beq_eq_false_iff_ne.2 hb
          simp [hne]
      simp only [List.getElem?_cons_succ, ih, hslash]
      cases n <;> simp [behindSlash]

/-- Whether a byte of a text stands right behind a slash that belongs to a block comment. -/
def followsSlash (bytes : List UInt8) (i : Nat) : Bool :=
  behindSlash false (bytes.zip (Walk.start.regions bytes)) i

/-- The region of a byte in the map. -/
theorem regionAt_regions {bytes : List UInt8} {i : Nat} {b : UInt8} (h : bytes[i]? = some b) :
    regionAt (regions bytes) i =
      if followsSlash bytes i && b == star then .blockComment
      else ((Walk.start.after i bytes).step b bytes[i + 1]?).1.getD .code := by
  have hzip : (bytes.zip (Walk.start.regions bytes))[i]? =
      some (b, ((Walk.start.after i bytes).step b bytes[i + 1]?).1.getD .code) := by
    rw [List.getElem?_zip_eq_some]
    exact ⟨h, by rw [Walk.getElem?_regions, h]; rfl⟩
  unfold regionAt regions
  rw [List.getD_eq_getElem?_getD, getElem?_absorbStars, hzip]
  rfl

/-- A byte stands right behind a slash of a block comment if the step over the byte before it says
so. -/
theorem followsSlash_iff (bytes : List UInt8) (i : Nat) :
    followsSlash bytes i = true ↔ ∃ j, i = j + 1 ∧ bytes[j]? = some slash ∧
      ((Walk.start.after j bytes).step slash bytes[j + 1]?).1 = some .blockComment := by
  unfold followsSlash
  cases i with
  | zero => simp [behindSlash]
  | succ j =>
    have hgetD (region : Option Region) :
        region.getD .code = .blockComment ↔ region = some .blockComment := by
      cases region <;> simp
    simp only [behindSlash, Option.any_eq_true, List.getElem?_zip_eq_some, Walk.getElem?_regions,
      Prod.exists, Bool.and_eq_true, beq_iff_eq, Option.map_eq_some_iff]
    constructor
    · rintro ⟨b, _, ⟨hb, b', hb', rfl⟩, hregion, rfl⟩
      obtain rfl : slash = b' := Option.some.inj (hb.symm.trans hb')
      exact ⟨j, rfl, hb, (hgetD _).1 hregion⟩
    · rintro ⟨j', hj, hb, hregion⟩
      obtain rfl : j = j' := by omega
      exact ⟨slash, .blockComment, ⟨hb, slash, hb, (hgetD _).2 hregion⟩, rfl, rfl⟩

/-- A star in code is read as a byte of code. -/
theorem step_star_of_code {w : Walk} {next : Option UInt8} (h : w.mode = .code) :
    (w.step star next).1 = some .code := by
  obtain ⟨mode, depth⟩ := w
  obtain rfl : mode = .code := h
  simp [Walk.step, star, slash, Quote.ofByte?, Quote.byte, openParen, closeParen]

/-- A byte without a token is the star of an opening `/*`. -/
theorem exists_segment_of_forall_ne {bytes : List UInt8} {i : Nat} (hi : i < bytes.length)
    (h : ∀ t ∈ tokensFrom bytes 0, t.offset ≠ i) :
    ∃ s ∈ segments 0 bytes, s.region = .blockComment ∧ i = s.start + 1 := by
  by_contra hnone
  push Not at hnone
  obtain ⟨x, hx, rfl⟩ := (exists_spots_segments_iff 0 bytes i).2 ⟨Nat.zero_le _, by omega, hnone⟩
  rw [← map_spot_tokensFrom_zero, List.mem_map] at hx
  obtain ⟨t, ht, rfl⟩ := hx
  exact h t ht rfl

/-- Behind a byte that the map has in code a walk is in code. -/
theorem mode_after_of_regionAt_eq_code {bytes : List UInt8} {i : Nat} (hi : i < bytes.length)
    (h : regionAt (regions bytes) i = .code) : (Walk.start.after (i + 1) bytes).mode = .code := by
  have hb : bytes[i]? = some bytes[i] := List.getElem?_eq_getElem hi
  rw [regionAt_regions hb] at h
  split_ifs at h with hstar
  rw [Walk.after_succ _ hb]
  cases hstep : ((Walk.start.after i bytes).step bytes[i] bytes[i + 1]?).1 with
  | some region =>
    rw [hstep, Option.getD_some] at h
    exact Walk.mode_step_of_region_eq_code (hstep.trans (congrArg some h))
  | none =>
    -- The star of an opening stands behind its slash, and the map has it in the comment.
    obtain ⟨j, hj, hslash, hbyte, hregion⟩ :=
      Walk.exists_of_mode_after_eq_blockOpening hi (Walk.step_fst_eq_none_iff.1 hstep)
    have hfollows : followsSlash bytes i = true :=
      (followsSlash_iff bytes i).2 ⟨j, hj, hslash, hregion⟩
    obtain hbyte : bytes[i] = star := Option.some.inj (hb.symm.trans hbyte)
    rw [hfollows, hbyte] at hstar
    exact absurd rfl hstar

/-! ## Where the map and the walk agree -/

/-- A byte has one token at most, whose region is the one of its step. -/
theorem region_of_mem_tokensFrom {bytes : List UInt8} {b : UInt8} {t : Token}
    (hb : bytes[t.offset]? = some b) (ht : t ∈ tokensFrom bytes 0) :
    t.byte = b ∧
      ((Walk.start.after t.offset bytes).step b bytes[t.offset + 1]?).1 = some t.region := by
  obtain ⟨hbyte, hregion, -⟩ := (mem_tokensFrom_zero_iff bytes t).1 ht
  obtain rfl : b = t.byte := Option.some.inj (hb.symm.trans hbyte)
  exact ⟨rfl, hregion⟩

/-- A byte to whose step the walk gives a region has a token. -/
theorem exists_mem_tokensFrom {bytes : List UInt8} {i : Nat} {b : UInt8} {region : Region}
    (hb : bytes[i]? = some b)
    (h : ((Walk.start.after i bytes).step b bytes[i + 1]?).1 = some region) :
    ∃ t ∈ tokensFrom bytes 0, t.offset = i ∧ t.byte = b ∧ t.region = region :=
  ⟨⟨i, b, region, (Walk.start.after i bytes).depth⟩,
    (mem_tokensFrom_zero_iff _ _).2 ⟨hb, h, rfl⟩, rfl, rfl, rfl⟩

/-- The map has the region of the token wherever it leaves the region of the walk, and wherever the
region of the walk is that of a block comment. -/
theorem agrees_of_step {bytes : List UInt8} {i : Nat} {b : UInt8} {region : Region}
    (hb : bytes[i]? = some b)
    (h : ((Walk.start.after i bytes).step b bytes[i + 1]?).1 = some region)
    (hmap : region = .blockComment ∨ (followsSlash bytes i && b == star) = false) :
    Agrees bytes i := by
  have hregion : regionAt (regions bytes) i = region := by
    rw [regionAt_regions hb, h]
    rcases hmap with rfl | hmap
    · split_ifs <;> rfl
    · rw [hmap, if_neg Bool.false_ne_true, Option.getD_some]
  refine ⟨fun t ht hoffset => ?_, fun hnone => ?_⟩
  · subst hoffset
    have htoken := (region_of_mem_tokensFrom hb ht).2
    rw [hregion]
    exact Option.some.inj (h.symm.trans htoken)
  · obtain ⟨t, ht, hoffset, -⟩ := exists_mem_tokensFrom hb h
    exact absurd hoffset (hnone t ht)

/-- The map and the walk agree at the star of an opening `/*`. -/
theorem agrees_of_mode_eq_blockOpening {bytes : List UInt8} {i : Nat} (hi : i < bytes.length)
    (h : (Walk.start.after i bytes).mode = .blockOpening) : Agrees bytes i := by
  obtain ⟨j, rfl, hslash, hstar, hregion⟩ := Walk.exists_of_mode_after_eq_blockOpening hi h
  have hfollows : followsSlash bytes (j + 1) = true :=
    (followsSlash_iff bytes (j + 1)).2 ⟨j, rfl, hslash, hregion⟩
  refine ⟨fun t ht hoffset => ?_, fun hnone => ⟨?_, hstar, exists_segment_of_forall_ne hi hnone⟩⟩
  · obtain ⟨-, hstep, -⟩ := (mem_tokensFrom_zero_iff bytes t).1 ht
    rw [hoffset, Walk.step_fst_eq_none_iff.2 h] at hstep
    exact nomatch hstep
  · rw [regionAt_regions hstar, hfollows]
    rfl

/-- A `*` in code behind a slash of a block comment is a star behind the comment. -/
theorem starBehindComment_of_followsSlash {bytes : List UInt8} {i : Nat}
    (hfollows : followsSlash bytes i = true) (hstar : bytes[i]? = some star)
    (h : (Walk.start.after i bytes).mode = .code) : StarBehindComment bytes i := by
  obtain ⟨j, rfl, hslash, hregion⟩ := (followsSlash_iff bytes i).1 hfollows
  obtain ⟨t, ht, hoffset, -, hblock⟩ := exists_mem_tokensFrom hslash hregion
  obtain ⟨t', ht', hoffset', hbyte', hcode⟩ :=
    exists_mem_tokensFrom hstar (step_star_of_code h)
  exact ⟨t, ht, t', ht', by omega, hoffset', hblock, hbyte', hcode⟩

/-- A star behind a comment stands behind a slash of it, in code for the walk. -/
theorem followsSlash_of_starBehindComment {bytes : List UInt8} {i : Nat}
    (h : StarBehindComment bytes i) : bytes[i]? = some star ∧ followsSlash bytes i = true ∧
      ((Walk.start.after i bytes).step star bytes[i + 1]?).1 = some .code := by
  obtain ⟨t, ht, t', ht', hnext, rfl, hblock, hstar, hcode⟩ := h
  obtain ⟨hbyte, hregion, -⟩ := (mem_tokensFrom_zero_iff bytes t).1 ht
  obtain ⟨hbyte', hregion', -⟩ := (mem_tokensFrom_zero_iff bytes t').1 ht'
  rw [hstar] at hbyte' hregion'
  rw [hblock] at hregion
  rw [hcode] at hregion'
  refine ⟨hbyte', (followsSlash_iff bytes t'.offset).2 ⟨t.offset, hnext.symm, ?_⟩, hregion'⟩
  have hmode : (Walk.start.after t'.offset bytes).mode =
      ((Walk.start.after t.offset bytes).step t.byte bytes[t.offset + 1]?).2.mode := by
    rw [← hnext, Walk.after_succ _ hbyte]
  -- Of the states behind a byte of a comment, only code reads a star as code.
  have hwithin (h : (Walk.start.after t'.offset bytes).mode = .blockComment ∨
      (Walk.start.after t'.offset bytes).mode = .blockClosing) : False := by
    rw [Walk.step_fst_of_mode_eq_blockComment h] at hregion'
    exact nomatch hregion'
  have hclosing : (Walk.start.after t.offset bytes).mode = .blockClosing := by
    rcases Walk.mode_step_of_region_eq_blockComment hregion with h | h | h | ⟨-, h⟩
    · rw [Walk.step_fst_eq_none_iff.2 (hmode.trans h)] at hregion'
      exact nomatch hregion'
    · exact (hwithin (.inl (hmode.trans h))).elim
    · exact (hwithin (.inr (hmode.trans h))).elim
    · exact h
  have hi : t.offset < bytes.length := (List.getElem?_eq_some_iff.1 hbyte).1
  obtain ⟨hslash, -⟩ := Walk.exists_of_mode_after_eq_blockClosing hi hclosing
  obtain hbyte : slash = t.byte := Option.some.inj (hslash.symm.trans hbyte)
  exact ⟨hslash, hbyte ▸ hregion⟩

/-- The map counts a star behind a comment as a part of the comment. -/
theorem regionAt_of_starBehindComment {bytes : List UInt8} {i : Nat}
    (h : StarBehindComment bytes i) : regionAt (regions bytes) i = .blockComment := by
  obtain ⟨hstar, hfollows, -⟩ := followsSlash_of_starBehindComment h
  rw [regionAt_regions hstar, hfollows]
  rfl

/-- The map and the walk agree at a byte that is no star behind a comment. -/
theorem agrees_of_not_starBehindComment {bytes : List UInt8} {i : Nat} (hi : i < bytes.length)
    (h : ¬ StarBehindComment bytes i) : Agrees bytes i := by
  have hb : bytes[i]? = some bytes[i] := List.getElem?_eq_getElem hi
  by_cases hopening : (Walk.start.after i bytes).mode = .blockOpening
  · exact agrees_of_mode_eq_blockOpening hi hopening
  cases hstar : followsSlash bytes i && bytes[i] == star with
  | false =>
    obtain ⟨region, hstep⟩ :=
      Option.ne_none_iff_exists'.1 fun hnone => hopening (Walk.step_fst_eq_none_iff.1 hnone)
    exact agrees_of_step hb hstep (.inr hstar)
  | true =>
    obtain ⟨hfollows, hbyte⟩ := Bool.and_eq_true_iff.1 hstar
    rw [beq_iff_eq] at hbyte
    -- Behind the slash the walk is in the comment or, if that closed it, in code.
    obtain ⟨j, rfl, hslash, hregion⟩ := (followsSlash_iff bytes i).1 hfollows
    have hmode := Walk.mode_step_of_region_eq_blockComment hregion
    rw [← Walk.after_succ _ hslash] at hmode
    rcases hmode with hmode | hmode | hmode | ⟨hmode, -⟩
    · exact absurd hmode hopening
    · exact agrees_of_step hb (Walk.step_fst_of_mode_eq_blockComment (.inl hmode)) (.inl rfl)
    · exact agrees_of_step hb (Walk.step_fst_of_mode_eq_blockComment (.inr hmode)) (.inl rfl)
    · rw [hbyte] at hb
      exact absurd (starBehindComment_of_followsSlash hfollows hb hmode) h

/-- The map and the walk agree at every byte but a star behind a comment, which the map counts as a
part of the comment. -/
theorem agrees_iff_not_starBehindComment {bytes : List UInt8} {i : Nat} (hi : i < bytes.length) :
    (Agrees bytes i ↔ ¬ StarBehindComment bytes i) ∧
      (StarBehindComment bytes i → regionAt (regions bytes) i = .blockComment) := by
  refine ⟨⟨fun hagrees hstar => ?_, agrees_of_not_starBehindComment hi⟩,
    regionAt_of_starBehindComment⟩
  have hmap := regionAt_of_starBehindComment hstar
  obtain ⟨-, -, t, ht, -, hoffset, -, -, hcode⟩ := hstar
  have htoken := hagrees.token t ht hoffset
  rw [hmap, hcode] at htoken
  exact nomatch htoken

/-- In `/* c */* x` the map and the walk agree at the slash that closes the comment, and not at the
star behind it. -/
theorem agrees_iff_not_starBehindComment_closed :
    Agrees (Text.utf8 "/* c */* x".toList) 6 ∧ ¬ Agrees (Text.utf8 "/* c */* x".toList) 7 :=
  ⟨(agrees_iff_not_starBehindComment (by decide +kernel)).1.2 (by decide +kernel),
    fun h => (agrees_iff_not_starBehindComment (by decide +kernel)).1.1 h (by decide +kernel)⟩

/-- The map and the walk do not agree at every byte of a text. -/
theorem not_forall_agrees :
    ¬ ∀ (bytes : List UInt8) (i : Nat), i < bytes.length → Agrees bytes i := by
  intro h
  have hstar := h (Text.utf8 "/* c */* x".toList) 7 (by decide +kernel)
  have htoken : ∃ t ∈ tokensFrom (Text.utf8 "/* c */* x".toList) 0, t.offset = 7 ∧
      regionAt (regions (Text.utf8 "/* c */* x".toList)) 7 ≠ t.region := by decide +kernel
  obtain ⟨t, ht, hoffset, hne⟩ := htoken
  exact hne (hstar.token t ht hoffset)

end ManifestSync.Source
