import Mathlib.Data.List.Infix
import Mathlib.Tactic.SplitIfs
import ManifestSync.Source.Walk

/-!
# The segments of a source text

A source text falls into segments: comments, string literals and single bytes of code. `segments`
cuts a text, from a position in code, into whole segments by looking ahead to where each of them
ends. A line comment ends before the next line feed, a block comment behind its first `*/`, and a
literal behind its first unescaped delimiter; a literal in quotes that its line does not close ends
with the line. What does not end runs to the end of the text.

A walk goes over the same text byte by byte and knows no more than its mode and one byte ahead.
`tokensFrom_segmented` says that its tokens are nevertheless the bytes of the segments, each in the
region of its segment, save the star of each `/*`. Behind the first bytes of a segment the walk is in
a mode of its own, in which it reads the rest of the segment and is then back in code: that is
`reads_lineComment`, `reads_blockComment` and `reads_literal`, each by induction over the text.
`exists_spots_opening` puts them together for one segment, and the induction over the segments is
`spots_eq_flatMap_segments`.
-/

namespace ManifestSync.Source

/-! ## The grammar -/

/-- A part of a source text that belongs together: a comment, a literal or a byte of code. -/
structure Segment where
  /-- Offset of the first byte. -/
  start : Nat
  region : Region
  bytes : List UInt8
  deriving DecidableEq, Repr

/-- The units of a literal: a backslash together with the byte that it escapes, and any other byte
for itself. -/
def units : List UInt8 → List (List UInt8)
  | [] => []
  | [b] => [[b]]
  | b :: c :: rest => if b = backslash then [b, c] :: units rest else [b] :: units (c :: rest)

/-- The units through the first one that is `u`; all of them if none is. -/
def through (u : List UInt8) (us : List (List UInt8)) : List (List UInt8) :=
  us.take (us.idxOf u + 1)

/-- The units that a literal can hold: in quotes, those before the first unescaped line feed. -/
def Quote.reach (q : Quote) (us : List (List UInt8)) : List (List UInt8) :=
  if q = .template then us else us.takeWhile (· ≠ [lineFeed])

/-- The part of a text that belongs to the literal which was opened just before it. -/
def literalRest (q : Quote) (bytes : List UInt8) : List UInt8 :=
  (through [q.byte] (q.reach (units bytes))).flatten

/-- The part of a text that belongs to the line comment which was opened just before it. -/
def lineRest (bytes : List UInt8) : List UInt8 :=
  bytes.takeWhile (· ≠ lineFeed)

/-- The part of a text that belongs to the block comment which was opened just before it: through the
first `*/`. -/
def blockRest : List UInt8 → List UInt8
  | [] => []
  | b :: rest =>
    if b = star ∧ rest.head? = some slash then [star, slash] else b :: blockRest rest

/-- The region of the segment that starts with a byte in code, and what belongs to it of the text
behind that byte. -/
def opening (b : UInt8) (rest : List UInt8) : Region × List UInt8 :=
  if b = slash ∧ rest.head? = some slash then (.lineComment, lineRest rest)
  else if b = slash ∧ rest.head? = some star then (.blockComment, star :: blockRest rest.tail)
  else match Quote.ofByte? b with
    | some q => (q.region, literalRest q rest)
    | none => (.code, [])

/-- The segments of a text whose first byte is in code and has the offset `offset`. -/
def segments (offset : Nat) : List UInt8 → List Segment
  | [] => []
  | b :: rest =>
    let more := (opening b rest).2
    ⟨offset, (opening b rest).1, b :: more⟩
      :: segments (offset + 1 + more.length) (rest.drop more.length)
termination_by bytes => bytes.length
decreasing_by simp only [List.length_drop, List.length_cons]; omega

/-- A byte of a text with its offset and its region. -/
structure Spot where
  offset : Nat
  byte : UInt8
  region : Region
  deriving DecidableEq, Repr

/-- What a token says of its byte, the depth left out. -/
def Token.spot (t : Token) : Spot := ⟨t.offset, t.byte, t.region⟩

/-- The bytes of a segment, from an offset on, with their region. -/
def spotsOf (region : Region) (offset : Nat) : List UInt8 → List Spot
  | [] => []
  | b :: rest => ⟨offset, b, region⟩ :: spotsOf region (offset + 1) rest

/-- The bytes of a segment for which a walk has a token: all but the star of an opening `/*`. -/
def Segment.spots (s : Segment) : List Spot :=
  if s.region = .blockComment then (spotsOf s.region s.start s.bytes).eraseIdx 1
  else spotsOf s.region s.start s.bytes

/-! ## Parts of a literal -/

@[simp]
theorem through_nil (u : List UInt8) : through u [] = [] := rfl

@[simp]
theorem through_cons (u v : List UInt8) (us : List (List UInt8)) :
    through u (v :: us) = v :: if v = u then [] else through u us := by
  unfold through
  rw [List.idxOf_cons]
  by_cases h : v = u
  · simp [h]
  · have hbeq : (v == u) = false := beq_eq_false_iff_ne.2 h
    simp [h, hbeq]

/-- A byte other than a backslash is a unit for itself. -/
theorem units_cons_of_ne {b : UInt8} (h : b ≠ backslash) (rest : List UInt8) :
    units (b :: rest) = [b] :: units rest := by
  cases rest with
  | nil => rfl
  | cons c rest => rw [units, if_neg h]

/-- A literal can hold every unit but, in quotes, an unescaped line feed. -/
theorem Quote.reach_cons_of_ne (q : Quote) {u : List UInt8} (h : q = .template ∨ u ≠ [lineFeed])
    (us : List (List UInt8)) : q.reach (u :: us) = u :: q.reach us := by
  unfold reach
  rcases h with rfl | h
  · rfl
  · split_ifs
    · rfl
    · rw [List.takeWhile_cons_of_pos (by simpa using h)]

/-- An escape belongs to the literal. -/
theorem literalRest_escape (q : Quote) (c : UInt8) (rest : List UInt8) :
    literalRest q (backslash :: c :: rest) = backslash :: c :: literalRest q rest := by
  unfold literalRest
  rw [units, if_pos rfl, q.reach_cons_of_ne (.inr (by simp)), through_cons, if_neg (by simp)]
  rfl

/-- A backslash at the end of the text belongs to the literal. -/
theorem literalRest_backslash (q : Quote) : literalRest q [backslash] = [backslash] := by
  cases q <;> decide

/-- The delimiter closes the literal. -/
theorem literalRest_delimiter (q : Quote) (rest : List UInt8) :
    literalRest q (q.byte :: rest) = [q.byte] := by
  unfold literalRest
  rw [units_cons_of_ne (by cases q <;> decide), q.reach_cons_of_ne (by cases q <;> decide),
    through_cons, if_pos rfl]
  rfl

/-- A line feed is no part of a literal in quotes. -/
theorem literalRest_lineFeed {q : Quote} (hq : q ≠ .template) (rest : List UInt8) :
    literalRest q (lineFeed :: rest) = [] := by
  unfold literalRest Quote.reach
  rw [units_cons_of_ne (by decide), if_neg hq, List.takeWhile_cons_of_neg (by simp)]
  rfl

/-- Any other byte belongs to the literal. -/
theorem literalRest_cons {q : Quote} {b : UInt8} (hescape : b ≠ backslash) (hdelimiter : b ≠ q.byte)
    (hline : q = .template ∨ b ≠ lineFeed) (rest : List UInt8) :
    literalRest q (b :: rest) = b :: literalRest q rest := by
  unfold literalRest
  rw [units_cons_of_ne hescape, q.reach_cons_of_ne (by simpa using hline), through_cons,
    if_neg (by simpa using hdelimiter)]
  rfl

/-! ## The walk within a segment -/

/-- The tokens of a walk without their depths. -/
def Walk.spots (w : Walk) (offset : Nat) (bytes : List UInt8) : List Spot :=
  (w.tokens offset bytes).map Token.spot

/-- A walk gives its token for the first byte, if there is one, and goes on behind it. -/
theorem Walk.tokens_cons (w : Walk) (offset : Nat) (b : UInt8) (rest : List UInt8) :
    w.tokens offset (b :: rest) =
      ((w.step b rest.head?).1.map fun r => Token.mk offset b r w.depth).toList ++
        (w.step b rest.head?).2.tokens (offset + 1) rest := by
  rw [Walk.tokens]
  cases hregion : (w.step b rest.head?).1 <;> simp [hregion]

/-- The tokens of a walk without their depths, one byte after the other. -/
theorem Walk.spots_cons (w : Walk) (offset : Nat) (b : UInt8) (rest : List UInt8) :
    w.spots offset (b :: rest) =
      ((w.step b rest.head?).1.map fun r => Spot.mk offset b r).toList ++
        (w.step b rest.head?).2.spots (offset + 1) rest := by
  unfold spots
  rw [tokens_cons]
  cases (w.step b rest.head?).1 <;> simp [Token.spot]

/-- A token is a byte of the text that is walked over. -/
theorem Walk.getElem?_of_mem_tokens {w : Walk} {offset : Nat} {bytes : List UInt8} {t : Token}
    (h : t ∈ w.tokens offset bytes) : offset ≤ t.offset ∧ bytes[t.offset - offset]? = some t.byte := by
  induction bytes generalizing w offset with
  | nil => exact absurd h List.not_mem_nil
  | cons b rest ih =>
    rw [tokens_cons, List.mem_append, Option.mem_toList, Option.map_eq_some_iff] at h
    rcases h with ⟨region, -, rfl⟩ | h
    · simp
    · obtain ⟨hle, hbyte⟩ := ih h
      have hsub : t.offset - offset = t.offset - (offset + 1) + 1 := by omega
      rw [hsub, List.getElem?_cons_succ]
      exact ⟨by omega, hbyte⟩

/-- The tokens of a walk have increasing offsets. -/
theorem Walk.pairwise_tokens (w : Walk) (offset : Nat) (bytes : List UInt8) :
    (w.tokens offset bytes).Pairwise (·.offset < ·.offset) := by
  induction bytes generalizing w offset with
  | nil => exact .nil
  | cons b rest ih =>
    rw [tokens_cons]
    cases (w.step b rest.head?).1 with
    | none => exact ih _ _
    | some region =>
      refine .cons (fun t ht => ?_) (ih _ _)
      exact (getElem?_of_mem_tokens ht).1

/-- A walk over a text reads its first part as bytes of one region, and goes on behind it in the state
`w'`. -/
def Walk.Reads (w : Walk) (region : Region) (bytes part : List UInt8) (w' : Walk) : Prop :=
  ∀ offset, w.spots offset bytes =
    spotsOf region offset part ++ w'.spots (offset + part.length) (bytes.drop part.length)

/-- A walk reads one byte and then what it reads behind it. -/
theorem Walk.Reads.cons {w w₁ w' : Walk} {region : Region} {b : UInt8} {rest part : List UInt8}
    (hstep : w.step b rest.head? = (some region, w₁)) (h : w₁.Reads region rest part w') :
    w.Reads region (b :: rest) (b :: part) w' := by
  intro offset
  have hlength : offset + 1 + part.length = offset + (b :: part).length := by
    rw [List.length_cons]
    omega
  rw [Walk.spots_cons, hstep, h (offset + 1), hlength]
  rfl

/-- A walk reads nothing of a text that it reads as from the other state. -/
theorem Walk.Reads.of_eq {w w' : Walk} {region : Region} {bytes : List UInt8}
    (h : ∀ offset, w.spots offset bytes = w'.spots offset bytes) : w.Reads region bytes [] w' := h

/-- At the end of the text there is nothing to read. -/
theorem Walk.reads_nil (w : Walk) (region : Region) (w' : Walk) : w.Reads region [] [] w' :=
  fun _ => rfl

variable (depth : Nat)

/-- A line feed that ends a segment is a byte of code. -/
theorem reads_lineFeed {w : Walk} {region : Region} {rest : List UInt8}
    (h : w.step lineFeed rest.head? = (some .code, ⟨.code, depth⟩)) :
    w.Reads region (lineFeed :: rest) [] ⟨.code, depth⟩ := by
  have hcode : (Walk.mk .code depth).step lineFeed rest.head? = (some .code, ⟨.code, depth⟩) := by
    simp [Walk.step, Quote.ofByte?, lineFeed, slash, openParen, closeParen, Quote.byte]
  refine .of_eq fun offset => ?_
  rw [Walk.spots_cons, Walk.spots_cons, h, hcode]

/-- Behind its opening, a walk reads a line comment to its end and is back in code. -/
theorem reads_lineComment (bytes : List UInt8) :
    (Walk.mk .lineComment depth).Reads .lineComment bytes (lineRest bytes) ⟨.code, depth⟩ := by
  induction bytes with
  | nil => exact Walk.reads_nil _ _ _
  | cons b rest ih =>
    by_cases hb : b = lineFeed
    · subst hb
      exact reads_lineFeed depth (by simp [Walk.step])
    · have hrest : lineRest (b :: rest) = b :: lineRest rest :=
        List.takeWhile_cons_of_pos (by simpa using hb)
      rw [hrest]
      exact .cons (by simp [Walk.step, hb]) ih

/-- Behind its opening, a walk reads a block comment to its end and is back in code. -/
theorem reads_blockComment (bytes : List UInt8) :
    (Walk.mk .blockComment depth).Reads .blockComment bytes (blockRest bytes) ⟨.code, depth⟩ := by
  induction bytes with
  | nil => exact Walk.reads_nil _ _ _
  | cons b rest ih =>
    rw [blockRest]
    split_ifs with hclose
    · obtain ⟨rfl, hslash⟩ := hclose
      cases rest with
      | nil => exact nomatch hslash
      | cons c rest =>
        obtain rfl := Option.some.inj hslash
        have hstar : (Walk.mk .blockComment depth).step star (some slash) =
            (some .blockComment, ⟨.blockClosing, depth⟩) := by simp [Walk.step]
        exact .cons hstar (.cons rfl (.of_eq fun _ => rfl))
    · exact .cons (by simp only [Walk.step, if_neg hclose]) ih

/-- A walk reads a byte of a literal that is no backslash, and what follows it. -/
theorem reads_literal_cons {q : Quote} {b : UInt8} {rest : List UInt8} (hescape : b ≠ backslash)
    (h : (Walk.mk (.literal q false) depth).Reads q.region rest (literalRest q rest)
      ⟨.code, depth⟩) :
    (Walk.mk (.literal q false) depth).Reads q.region (b :: rest) (literalRest q (b :: rest))
      ⟨.code, depth⟩ := by
  by_cases hdelimiter : b = q.byte
  · subst hdelimiter
    have hstep : (Walk.mk (.literal q false) depth).step q.byte rest.head? =
        (some q.region, ⟨.code, depth⟩) := by simp [Walk.step, hescape]
    rw [literalRest_delimiter]
    exact .cons hstep (.of_eq fun _ => rfl)
  · -- A line feed in quotes is read as code already, and the part of the literal is empty.
    by_cases hline : b = lineFeed ∧ q ≠ .template
    · obtain ⟨rfl, hq⟩ := hline
      rw [literalRest_lineFeed hq]
      exact reads_lineFeed depth (by simp [Walk.step, hescape, hdelimiter, hq])
    · have hstep : (Walk.mk (.literal q false) depth).step b rest.head? =
          (some q.region, ⟨.literal q false, depth⟩) := by
        simp only [Walk.step, if_neg hescape, if_neg hdelimiter, if_neg hline]
      rw [literalRest_cons hescape hdelimiter ((not_and_or.1 hline).symm.imp_left not_not.1)]
      exact .cons hstep h

/-- Behind its opening, a walk reads a literal to its end and is back in code. -/
theorem reads_literal (q : Quote) (bytes : List UInt8) :
    (Walk.mk (.literal q false) depth).Reads q.region bytes (literalRest q bytes)
      ⟨.code, depth⟩ := by
  have hnil : (Walk.mk (.literal q false) depth).Reads q.region [] (literalRest q [])
      ⟨.code, depth⟩ := by
    cases q <;> exact Walk.reads_nil _ _ _
  have hescape : ∀ next, (Walk.mk (.literal q false) depth).step backslash next =
      (some q.region, ⟨.literal q true, depth⟩) := by
    intro next
    simp [Walk.step]
  -- The cases are those of the units: an escape is read in two steps, any other byte in one.
  fun_induction units bytes with
  | case1 => exact hnil
  | case2 b =>
    by_cases hb : b = backslash
    · subst hb
      rw [literalRest_backslash]
      exact .cons (hescape _) (Walk.reads_nil _ _ _)
    · exact reads_literal_cons depth hb hnil
  | case3 c rest ih =>
    rw [literalRest_escape]
    exact .cons (hescape _) (.cons rfl ih)
  | case4 b c rest hb ih => exact reads_literal_cons depth hb ih

/-! ## The walk over the segments -/

/-- A walk in code reads a segment that is no block comment, and is back in code. -/
theorem spots_segment_of_reads {region : Region} {b : UInt8} {rest more : List UInt8}
    {depth depth' : Nat} (hregion : region ≠ .blockComment)
    (h : (Walk.mk .code depth).Reads region (b :: rest) (b :: more) ⟨.code, depth'⟩)
    (offset : Nat) :
    (Walk.mk .code depth).spots offset (b :: rest) =
      (Segment.mk offset region (b :: more)).spots ++
        (Walk.mk .code depth').spots (offset + 1 + more.length) (rest.drop more.length) := by
  rw [h offset, Segment.spots, if_neg hregion, List.length_cons, List.drop_succ_cons,
    Nat.add_right_comm, Nat.add_assoc]

/-- A walk in code reads the segment that starts there, and is back in code. -/
theorem exists_spots_opening (depth offset : Nat) (b : UInt8) (rest : List UInt8) :
    ∃ depth', (Walk.mk .code depth).spots offset (b :: rest) =
      (Segment.mk offset (opening b rest).1 (b :: (opening b rest).2)).spots ++
        (Walk.mk .code depth').spots (offset + 1 + (opening b rest).2.length)
          (rest.drop (opening b rest).2.length) := by
  unfold opening
  split_ifs with hline hblock
  · have hstep : (Walk.mk .code depth).step b rest.head? =
        (some .lineComment, ⟨.lineComment, depth⟩) := by simp only [Walk.step, if_pos hline]
    exact ⟨depth, spots_segment_of_reads (by decide) (.cons hstep (reads_lineComment depth rest)) _⟩
  · -- The star of the opening gives no token, so two steps are taken before the comment is read.
    obtain ⟨rfl, hstar⟩ := hblock
    cases rest with
    | nil => exact nomatch hstar
    | cons c tail =>
      obtain rfl := Option.some.inj hstar
      have hslash : (Walk.mk .code depth).step slash (some star) =
          (some .blockComment, ⟨.blockOpening, depth⟩) := by simp [Walk.step, slash, star]
      have hstar : (Walk.mk .blockOpening depth).step star tail.head? =
          (none, ⟨.blockComment, depth⟩) := rfl
      have hlength : offset + 1 + 1 + (blockRest tail).length =
          offset + 1 + (star :: blockRest tail).length := by
        rw [List.length_cons]
        omega
      refine ⟨depth, ?_⟩
      rw [Walk.spots_cons, List.head?_cons, hslash, Walk.spots_cons, hstar,
        reads_blockComment depth tail, hlength]
      rfl
  · cases hquote : Quote.ofByte? b with
    | some q =>
      have hstep : (Walk.mk .code depth).step b rest.head? =
          (some q.region, ⟨.literal q false, depth⟩) := by
        simp only [Walk.step, if_neg hline, if_neg hblock, hquote]
      have hregion : q.region ≠ .blockComment := by cases q <;> decide
      exact ⟨depth, spots_segment_of_reads hregion (.cons hstep (reads_literal depth q rest)) _⟩
    | none =>
      have hstep : ∃ depth', (Walk.mk .code depth).step b rest.head? =
          (some .code, ⟨.code, depth'⟩) := by
        simp only [Walk.step, if_neg hline, if_neg hblock, hquote]
        split_ifs <;> exact ⟨_, rfl⟩
      obtain ⟨depth', hstep⟩ := hstep
      exact ⟨depth', spots_segment_of_reads (by decide) (.cons hstep (.of_eq fun _ => rfl)) _⟩

/-- The tokens of a walk in code are the bytes of the segments that have one. -/
theorem spots_eq_flatMap_segments (depth offset : Nat) (bytes : List UInt8) :
    (Walk.mk .code depth).spots offset bytes = (segments offset bytes).flatMap Segment.spots := by
  fun_induction segments offset bytes generalizing depth with
  | case1 => rfl
  | case2 offset b rest more ih =>
    obtain ⟨depth', hspots⟩ := exists_spots_opening depth offset b rest
    rw [hspots, List.flatMap_cons, ih depth']

/-- The tokens of a whole text are, depths aside, the bytes of its segments that have one. -/
theorem map_spot_tokensFrom_zero (bytes : List UInt8) :
    (tokensFrom bytes 0).map Token.spot = (segments 0 bytes).flatMap Segment.spots := by
  rw [tokensFrom, List.drop_zero]
  exact spots_eq_flatMap_segments 0 0 bytes

/-! ## The extent of the segments -/

/-- The units of a text make it up. -/
theorem flatten_units (bytes : List UInt8) : (units bytes).flatten = bytes := by
  fun_induction units bytes with
  | case1 => rfl
  | case2 b => rfl
  | case3 c rest ih => rw [List.flatten_cons, ih]; rfl
  | case4 b c rest hb ih => rw [List.flatten_cons, ih]; rfl

/-- A literal is a beginning of the text behind its opening. -/
theorem literalRest_isPrefix (q : Quote) (bytes : List UInt8) : literalRest q bytes <+: bytes := by
  have hreach : q.reach (units bytes) <+: units bytes := by
    unfold Quote.reach
    split_ifs
    · exact List.prefix_refl _
    · exact List.takeWhile_prefix _
  have hthrough : through [q.byte] (q.reach (units bytes)) <+: units bytes :=
    (List.take_prefix _ _).trans hreach
  have hflatten := hthrough.flatten
  rwa [flatten_units] at hflatten

/-- A block comment is a beginning of the text behind its opening. -/
theorem blockRest_isPrefix (bytes : List UInt8) : blockRest bytes <+: bytes := by
  induction bytes with
  | nil => exact List.prefix_refl _
  | cons b rest ih =>
    rw [blockRest]
    split_ifs with hclose
    · obtain ⟨rfl, hslash⟩ := hclose
      obtain ⟨rest, rfl⟩ := List.head?_eq_some_iff.1 hslash
      exact List.prefix_append [star, slash] rest
    · exact (List.prefix_cons_inj _).2 ih

/-- What belongs to a segment is a beginning of the text behind its first byte. -/
theorem opening_isPrefix (b : UInt8) (rest : List UInt8) : (opening b rest).2 <+: rest := by
  unfold opening
  split_ifs with hline hblock
  · exact List.takeWhile_prefix _
  · obtain ⟨tail, rfl⟩ := List.head?_eq_some_iff.1 hblock.2
    exact (List.prefix_cons_inj _).2 (blockRest_isPrefix tail)
  · cases Quote.ofByte? b with
    | some q => exact literalRest_isPrefix q rest
    | none => exact List.nil_prefix

/-- The segments of a text make it up. -/
theorem flatMap_bytes_segments (offset : Nat) (bytes : List UInt8) :
    (segments offset bytes).flatMap (·.bytes) = bytes := by
  fun_induction segments offset bytes with
  | case1 => rfl
  | case2 offset b rest more ih =>
    rw [List.flatMap_cons, ih, List.cons_append]
    exact congrArg _ (List.prefix_append_drop (opening_isPrefix b rest)).symm

/-- A segment of a text starts in it. -/
theorem le_start_of_mem_segments {offset : Nat} {bytes : List UInt8} {s : Segment}
    (h : s ∈ segments offset bytes) : offset ≤ s.start := by
  fun_induction segments offset bytes with
  | case1 => exact absurd h List.not_mem_nil
  | case2 offset b rest more ih =>
    rcases List.mem_cons.1 h with rfl | h
    · exact Nat.le_refl _
    · have := ih h
      omega

/-- Every byte of a part of a text has its spot. -/
theorem exists_spotsOf_iff (region : Region) (offset : Nat) (bytes : List UInt8) (i : Nat) :
    (∃ x ∈ spotsOf region offset bytes, x.offset = i) ↔ offset ≤ i ∧ i < offset + bytes.length := by
  induction bytes generalizing offset with
  | nil => simp [spotsOf]
  | cons b rest ih =>
    rw [spotsOf, List.exists_mem_cons_iff, ih, List.length_cons]
    simp only
    omega

/-- A segment has a spot for each of its bytes, but not for the star of an opening `/*`. -/
theorem Segment.exists_spots_iff (s : Segment) (i : Nat) :
    (∃ x ∈ s.spots, x.offset = i) ↔
      s.start ≤ i ∧ i < s.start + s.bytes.length ∧ (s.region = .blockComment → i ≠ s.start + 1) := by
  obtain ⟨start, region, bytes⟩ := s
  unfold spots
  simp only
  split_ifs with hblock
  · subst hblock
    -- The star is the second byte; without one there is nothing to leave out.
    match bytes with
    | [] =>
      simp [spotsOf]
      omega
    | [b] =>
      simp [spotsOf]
      omega
    | b :: c :: rest =>
      have herase : (spotsOf .blockComment start (b :: c :: rest)).eraseIdx 1 =
          ⟨start, b, .blockComment⟩ :: spotsOf .blockComment (start + 1 + 1) rest := rfl
      rw [herase, List.exists_mem_cons_iff, exists_spotsOf_iff]
      simp only [List.length_cons, true_imp_iff]
      omega
  · rw [exists_spotsOf_iff]
    simp only [hblock, false_imp_iff, and_true]

/-- The spots of a segment are in its region. -/
theorem Segment.region_of_mem_spots {s : Segment} {x : Spot} (h : x ∈ s.spots) :
    x.region = s.region := by
  have hall : ∀ (offset : Nat) (bytes : List UInt8), ∀ x ∈ spotsOf s.region offset bytes,
      x.region = s.region := by
    intro offset bytes
    induction bytes generalizing offset with
    | nil => exact List.forall_mem_nil _
    | cons b rest ih => exact List.forall_mem_cons.2 ⟨rfl, ih (offset + 1)⟩
  unfold spots at h
  split_ifs at h
  · exact hall s.start s.bytes x (List.mem_of_mem_eraseIdx h)
  · exact hall s.start s.bytes x h

/-- A block comment has its star. -/
theorem opening_ne_nil {b : UInt8} {rest : List UInt8} (h : (opening b rest).1 = .blockComment) :
    (opening b rest).2 ≠ [] := by
  unfold opening at h ⊢
  split_ifs at h ⊢
  · exact List.cons_ne_nil _ _
  · revert h
    cases Quote.ofByte? b with
    | none => exact fun h => nomatch h
    | some q => cases q <;> exact fun h => nomatch h

/-- The segments of a text have a spot for each of its bytes, but not for the star of an opening
`/*`. -/
theorem exists_spots_segments_iff (offset : Nat) (bytes : List UInt8) (i : Nat) :
    (∃ x ∈ (segments offset bytes).flatMap Segment.spots, x.offset = i) ↔
      offset ≤ i ∧ i < offset + bytes.length ∧
        ∀ s ∈ segments offset bytes, s.region = .blockComment → i ≠ s.start + 1 := by
  fun_induction segments offset bytes with
  | case1 => simp
  | case2 offset b rest more ih =>
    have hmore : more.length ≤ rest.length := (opening_isPrefix b rest).length_le
    have hblock : (opening b rest).1 = .blockComment → 0 < more.length := fun h =>
      List.length_pos_of_ne_nil (opening_ne_nil h)
    have hstart : ∀ s ∈ segments (offset + 1 + more.length) (rest.drop more.length),
        offset + 1 + more.length ≤ s.start := fun s hs => le_start_of_mem_segments hs
    rw [List.length_drop] at ih
    simp only [List.flatMap_cons, List.mem_append, or_and_right, exists_or, ih,
      Segment.exists_spots_iff, List.forall_mem_cons, List.length_cons]
    -- An offset lies in the first segment or behind it, where no star of the other part stands.
    constructor
    · rintro (⟨hlow, hhigh, hstar⟩ | ⟨hlow, hhigh, hstars⟩)
      · refine ⟨hlow, by omega, hstar, fun s hs _ => ?_⟩
        have := hstart s hs
        omega
      · refine ⟨by omega, by omega, fun h => ?_, hstars⟩
        have := hblock h
        omega
    · rintro ⟨hlow, hhigh, hstar, hstars⟩
      by_cases hi : i < offset + 1 + more.length
      · exact .inl ⟨hlow, by omega, hstar⟩
      · exact .inr ⟨by omega, by omega, hstars⟩

/-! ## The tokens of a walk -/

/-- What the tokens of a walk that starts at an offset have to do with the segments of the text from
there on. -/
structure Segmented (bytes : List UInt8) (offset : Nat) (tokens : List Token)
    (segments : List Segment) : Prop where
  /-- The segments make up the text from the offset on. -/
  cover : segments.flatMap (·.bytes) = bytes.drop offset
  /-- The tokens are, in order, the bytes of the segments in the regions of these. -/
  spots : tokens.map Token.spot = segments.flatMap Segment.spots
  /-- A token is the byte of the text at its offset. -/
  byte : ∀ t ∈ tokens, bytes[t.offset]? = some t.byte
  /-- The offsets increase. -/
  increasing : tokens.Pairwise (·.offset < ·.offset)
  /-- Every byte from the offset on has a token, save the star of an opening `/*`. -/
  complete : ∀ i, (∃ t ∈ tokens, t.offset = i) ↔
    offset ≤ i ∧ i < bytes.length ∧ ∀ s ∈ segments, s.region = .blockComment → i ≠ s.start + 1
  /-- The region of a token is that of the segment within which it stands. -/
  region : ∀ t ∈ tokens, ∃ s ∈ segments, s.start ≤ t.offset ∧
    t.offset < s.start + s.bytes.length ∧ t.region = s.region

/-- The walk from any offset of any text gives the bytes of the segments. -/
theorem tokensFrom_segmented (bytes : List UInt8) (offset : Nat) :
    Segmented bytes offset (tokensFrom bytes offset) (segments offset (bytes.drop offset)) := by
  have hspots : (tokensFrom bytes offset).map Token.spot =
      (segments offset (bytes.drop offset)).flatMap Segment.spots :=
    spots_eq_flatMap_segments 0 offset (bytes.drop offset)
  refine
    { cover := flatMap_bytes_segments offset _
      spots := hspots
      byte := ?_
      increasing := Walk.pairwise_tokens _ _ _
      complete := ?_
      region := ?_ }
  · intro t ht
    obtain ⟨hle, hbyte⟩ := Walk.getElem?_of_mem_tokens ht
    rw [List.getElem?_drop] at hbyte
    rwa [Nat.add_sub_cancel' hle] at hbyte
  · intro i
    have htokens : (∃ t ∈ tokensFrom bytes offset, t.offset = i) ↔
        ∃ x ∈ (tokensFrom bytes offset).map Token.spot, x.offset = i := by
      simp [Token.spot]
    rw [htokens, hspots, exists_spots_segments_iff, List.length_drop]
    constructor
    · rintro ⟨hlow, hhigh, hstars⟩
      exact ⟨hlow, by omega, hstars⟩
    · rintro ⟨hlow, hhigh, hstars⟩
      exact ⟨hlow, by omega, hstars⟩
  · intro t ht
    have hspot : t.spot ∈ (segments offset (bytes.drop offset)).flatMap Segment.spots :=
      hspots ▸ List.mem_map_of_mem ht
    obtain ⟨s, hs, hspot⟩ := List.mem_flatMap.1 hspot
    obtain ⟨hlow, hhigh, -⟩ := (s.exists_spots_iff t.offset).1 ⟨t.spot, hspot, rfl⟩
    exact ⟨s, hs, hlow, hhigh, Segment.region_of_mem_spots hspot⟩

end ManifestSync.Source
