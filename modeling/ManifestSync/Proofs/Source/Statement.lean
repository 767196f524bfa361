import ManifestSync.Proofs.Source.Bounds
import ManifestSync.Text.Utf8

/-!
# Comments and the ends of statements

The search for the end of a statement passes over comments, but at a line break it looks at the bytes
behind it as they are, and takes the slash of a comment for the start of another statement. So a comment
between a line break and the full stop of a chain cuts the statement short, and a comment does nothing
else to it: `statementEnd_blankComments_iff` compares the text with the one that has spaces in place of
its comments.

A walk over the text with spaces is in code wherever the walk over the text itself is in a comment, and
in the same state everywhere else (`outside_of_comment`, `step_outside`). Its tokens are therefore the
same but for spaces (`find?_tokens_blanked`), and all that is left between the two searches is what they
make of a line break. With the comments blanked, the next byte that is not blank is that of the next
token outside of comments (`find?_blanked`).
-/

namespace ManifestSync.Source

/-- The byte of a space. -/
def space : UInt8 := 32

/-- A token that is neither blank nor in a comment. -/
def Token.isInk (t : Token) : Bool :=
  !t.region.isComment && !isAsciiBlank t.byte

/-- A literal is no comment. -/
theorem Quote.isComment_region (q : Quote) : q.region.isComment = false := by
  cases q <;> rfl

/-! ## Texts without comments -/

namespace Walk

/-- A text with a space in place of each byte of a comment. The star of an opening `/*`, which has no
region, belongs to the comment. -/
def blanked (w : Walk) : List UInt8 → List UInt8
  | [] => []
  | b :: rest =>
    let (region, w') := w.step b rest.head?
    (if region.all Region.isComment then space else b) :: w'.blanked rest

/-- The state of a walk, in code if it is in a comment. -/
def outside (w : Walk) : Walk :=
  match w.mode with
  | .code | .literal _ _ => w
  | _ => { w with mode := .code }

theorem blanked_cons (w : Walk) (b : UInt8) (rest : List UInt8) :
    w.blanked (b :: rest) = (if (w.step b rest.head?).1.all Region.isComment then space else b) ::
      (w.step b rest.head?).2.blanked rest := rfl

theorem length_blanked (w : Walk) (bytes : List UInt8) :
    (w.blanked bytes).length = bytes.length := by
  induction bytes generalizing w with
  | nil => rfl
  | cons b rest ih => rw [blanked_cons, List.length_cons, List.length_cons, ih]

/-- From an offset on, the text without comments is that of the walk that goes on from its state
there. -/
theorem drop_blanked (w : Walk) (n : Nat) (bytes : List UInt8) :
    (w.blanked bytes).drop n = (w.after n bytes).blanked (bytes.drop n) := by
  induction n generalizing w bytes with
  | zero => rw [List.drop_zero, List.drop_zero, after_zero]
  | succ n ih =>
    cases bytes with
    | nil => rfl
    | cons b rest => rw [blanked_cons, List.drop_succ_cons, ih, after_cons, List.drop_succ_cons]

/-- The byte that follows is the same in the text without comments, or a space. -/
theorem head?_blanked (w : Walk) (bytes : List UInt8) :
    (w.blanked bytes).head? = bytes.head? ∨ (w.blanked bytes).head? = some space := by
  cases bytes with
  | nil => exact .inl rfl
  | cons b rest =>
    rw [blanked_cons, List.head?_cons, List.head?_cons]
    split_ifs
    · exact .inr rfl
    · exact .inl rfl

variable {w : Walk} {b : UInt8} {next next' : Option UInt8} {region : Region}

@[simp]
theorem depth_outside (w : Walk) : w.outside.depth = w.depth := by
  obtain ⟨mode, depth⟩ := w
  cases mode <;> rfl

/-- A blank in code is read as code, and changes nothing. -/
theorem step_blank {depth : Nat} (hb : isAsciiBlank b) (next : Option UInt8) :
    (Walk.mk .code depth).step b next = (some .code, ⟨.code, depth⟩) := by
  unfold isAsciiBlank at hb
  unfold step
  grind [slash, Quote.ofByte?, Quote.byte, openParen, closeParen]

/-- A step over a byte of a comment goes from code or a comment to code or a comment. -/
theorem outside_of_comment (h : (w.step b next).1.all Region.isComment) :
    w.outside = ⟨.code, w.depth⟩ ∧ (w.step b next).2.outside = ⟨.code, w.depth⟩ := by
  obtain ⟨mode, depth⟩ := w
  unfold step at h ⊢
  unfold outside
  cases mode <;> grind [Quote.isComment_region, Region.isComment]

/-- In code, the byte that follows matters only if it opens a comment. -/
theorem step_code_congr {depth : Nat} (hnext : next' = next ∨ next' = some space)
    (h : ((Walk.mk .code depth).step b next).1 = some region) (hcomment : ¬ region.isComment) :
    (Walk.mk .code depth).step b next' = (Walk.mk .code depth).step b next := by
  have hopens : ¬(b = slash ∧ next = some slash) ∧ ¬(b = slash ∧ next = some star) := by
    constructor
    · rintro ⟨rfl, rfl⟩
      obtain rfl : Region.lineComment = region := by simpa [step] using h
      exact hcomment rfl
    · rintro ⟨rfl, rfl⟩
      obtain rfl : Region.blockComment = region := by simpa [step, slash, star] using h
      exact hcomment rfl
  have hopens' : ¬(b = slash ∧ next' = some slash) ∧ ¬(b = slash ∧ next' = some star) := by
    rcases hnext with rfl | rfl
    · exact hopens
    · simp [space, slash, star]
  simp only [step, if_neg hopens.1, if_neg hopens.2, if_neg hopens'.1, if_neg hopens'.2]

/-- Behind a byte of code or of a literal, a walk is in no comment. -/
theorem outside_step (h : (w.step b next).1 = some region) (hcomment : ¬ region.isComment) :
    (w.step b next).2.outside = (w.step b next).2 := by
  obtain ⟨mode, depth⟩ := w
  unfold step at h ⊢
  unfold outside
  cases mode <;> grind [Region.isComment]

/-- A byte outside of comments is read in the same way in the text without comments. -/
theorem step_outside (hnext : next' = next ∨ next' = some space)
    (h : (w.step b next).1 = some region) (hcomment : ¬ region.isComment) :
    w.outside.step b next' = (some region, (w.step b next).2.outside) := by
  rw [outside_step h hcomment, ← h]
  obtain ⟨mode, depth⟩ := w
  -- In a comment only the line feed that ends a line comment does not belong to it.
  cases mode with
  | code => exact step_code_congr hnext h hcomment
  | literal q escaped => cases escaped <;> rfl
  | lineComment =>
    by_cases hb : b = lineFeed
    · subst hb
      rfl
    · obtain rfl : Region.lineComment = region := by simpa [step, hb] using h
      exact absurd rfl hcomment
  | blockOpening => cases h
  | blockComment =>
    obtain rfl := Option.some.inj ((step_fst_of_mode_eq_blockComment (.inl rfl)).symm.trans h)
    exact absurd rfl hcomment
  | blockClosing =>
    obtain rfl := Option.some.inj ((step_fst_of_mode_eq_blockComment (.inr rfl)).symm.trans h)
    exact absurd rfl hcomment

/-- A byte that does not belong to a comment has a region. -/
theorem exists_region_of_not_comment {o : Option Region} (h : ¬ o.all Region.isComment) :
    ∃ region, o = some region ∧ ¬ region.isComment := by
  cases o with
  | none => exact absurd rfl h
  | some region => exact ⟨region, rfl, h⟩

/-- The tokens of the text without comments are those of the text itself, but for spaces and
comments. -/
theorem find?_tokens_blanked {p : Token → Bool} (hspace : ∀ t, t.byte = space → p t = false)
    (hcomment : ∀ t, t.region.isComment → p t = false) (w : Walk) (offset : Nat)
    (bytes : List UInt8) :
    (w.outside.tokens offset (w.blanked bytes)).find? p = (w.tokens offset bytes).find? p := by
  induction bytes generalizing w offset with
  | nil => rfl
  | cons b rest ih =>
    rw [blanked_cons, tokens_cons, tokens_cons, List.find?_append, List.find?_append, ← ih]
    have hnext := head?_blanked (w.step b rest.head?).2 rest
    split_ifs with hblank
    · -- A space is passed over in the one text, and a byte of a comment in the other.
      obtain ⟨hbefore, hbehind⟩ := outside_of_comment hblank
      rw [hbefore, step_blank rfl, ← hbehind]
      cases hregion : (w.step b rest.head?).1 with
      | none => simp [hspace]
      | some region =>
        have hpass := hcomment ⟨offset, b, region, w.depth⟩ (by simpa [hregion] using hblank)
        simp [hspace, hpass]
    · obtain ⟨region, hregion, hcode⟩ := exists_region_of_not_comment hblank
      rw [step_outside hnext hregion hcode, hregion, depth_outside]

/-- With the comments of a text blanked, the next byte that is not blank is that of the next token which
is neither blank nor in a comment. -/
theorem find?_blanked (w : Walk) (offset : Nat) (bytes : List UInt8) :
    (w.blanked bytes).find? (!isAsciiBlank ·) =
      ((w.tokens offset bytes).find? Token.isInk).map Token.byte := by
  induction bytes generalizing w offset with
  | nil => rfl
  | cons b rest ih =>
    rw [blanked_cons, tokens_cons, List.find?_append, List.find?_cons, ih _ (offset + 1)]
    split_ifs with hblank
    · have hspace : isAsciiBlank space := rfl
      cases hregion : (w.step b rest.head?).1 with
      | none => simp [hspace]
      | some region =>
        have hcomment : region.isComment := by simpa [hregion] using hblank
        simp [hspace, Token.isInk, hcomment]
    · obtain ⟨region, hregion, hcode⟩ := exists_region_of_not_comment hblank
      cases hb : isAsciiBlank b <;> simp [hregion, Token.isInk, hcode, hb]

/-- A full stop that follows in code, blanks passed over, follows in the text without comments as
well. -/
theorem find?_blanked_of_code {w : Walk} (hcode : w.mode = .code) {bytes : List UInt8}
    (h : bytes.find? (!isAsciiBlank ·) = some fullStop) :
    (w.blanked bytes).find? (!isAsciiBlank ·) = some fullStop := by
  induction bytes generalizing w with
  | nil => exact nomatch h
  | cons b rest ih =>
    obtain ⟨mode, depth⟩ := w
    obtain rfl : mode = .code := hcode
    rw [List.find?_cons] at h
    rw [blanked_cons]
    cases hb : isAsciiBlank b with
    | true =>
      rw [hb] at h
      rw [step_blank hb]
      simpa [Region.isComment, hb] using ih rfl h
    | false =>
      rw [hb] at h
      obtain rfl : b = fullStop := Option.some.inj h
      have hstep : ((Walk.mk .code depth).step fullStop rest.head?).1 = some .code := by
        simp [step, fullStop, slash, Quote.ofByte?, Quote.byte, openParen, closeParen]
      simp [hstep, Region.isComment, hb]

end Walk

/-! ## The end of a statement -/

/-- The text with a space in place of each byte of a comment, as the walk that starts at an offset
delimits comments. -/
def blankComments (bytes : List UInt8) (start : Nat) : List UInt8 :=
  bytes.take start ++ Walk.start.blanked (bytes.drop start)

/-- Whether the text from an offset on, blanks and comments passed over, goes on with a full stop. -/
def continuesOutsideComments (bytes : List UInt8) (start offset : Nat) : Bool :=
  ((tokensFrom bytes start).find? fun t => offset ≤ t.offset && t.isInk).any (·.byte == fullStop)

/-- A comment cuts a statement short: the statement ends at a line break behind which, the comment
passed over, a chain goes on. -/
def CutByComment (bytes : List UInt8) (start : Nat) : Prop :=
  ∃ t ∈ tokensFrom bytes start, t.offset = statementEnd bytes start ∧ t.isCode lineFeed ∧
    continuesOutsideComments bytes start t.offset

instance (bytes : List UInt8) (start : Nat) : Decidable (CutByComment bytes start) :=
  inferInstanceAs (Decidable (∃ t ∈ tokensFrom bytes start, _))

/-- Whether a statement ends at a token. -/
def endsStatement (bytes : List UInt8) (t : Token) : Bool :=
  t.region == .code && t.depth == 0 &&
    (t.byte == semicolon || t.byte == closeBrace || t.byte == closeParen ||
      (t.byte == lineFeed && !continuesChain bytes t.offset))

variable {bytes : List UInt8} {start : Nat} {t : Token}

theorem statementStop_eq (bytes : List UInt8) (t : Token) : statementStop bytes () t =
    if endsStatement bytes t then .found t.offset else .next () := by
  unfold statementStop endsStatement
  grind

theorem statementEnd_eq (bytes : List UInt8) (start : Nat) : statementEnd bytes start =
    (((tokensFrom bytes start).find? (endsStatement bytes)).map Token.offset).getD bytes.length := by
  have hsearch (ts : List Token) : searchTokens (statementStop bytes) () ts =
      (ts.find? (endsStatement bytes)).map Token.offset := by
    induction ts with
    | nil => rfl
    | cons t ts ih =>
      rw [searchTokens, statementStop_eq, List.find?_cons]
      cases endsStatement bytes t with
      | true => rfl
      | false => exact ih
  rw [statementEnd, searchFrom_eq, hsearch]

theorem length_blankComments (bytes : List UInt8) (start : Nat) :
    (blankComments bytes start).length = bytes.length := by
  rw [blankComments, List.length_append, Walk.length_blanked, ← List.length_append,
    List.take_append_drop]

theorem drop_blankComments (bytes : List UInt8) (start n : Nat) :
    (blankComments bytes start).drop (start + n) =
      (Walk.start.after n (bytes.drop start)).blanked (bytes.drop (start + n)) := by
  have hstart : (blankComments bytes start).drop start = Walk.start.blanked (bytes.drop start) := by
    rw [blankComments, List.drop_append, List.drop_take, Nat.sub_self, List.take_zero,
      List.nil_append, List.length_take]
    rcases Nat.le_total start bytes.length with hle | hle
    · rw [Nat.min_eq_left hle, Nat.sub_self, List.drop_zero]
    · rw [List.drop_eq_nil_of_le hle]
      exact List.drop_nil
  rw [← List.drop_drop, hstart, Walk.drop_blanked, List.drop_drop]

/-- Comments aside, the two texts go on in the same way. -/
theorem continuesChain_blankComments (ht : t ∈ tokensFrom bytes start) :
    continuesChain (blankComments bytes start) t.offset =
      continuesOutsideComments bytes start t.offset := by
  obtain ⟨n, hoffset, -⟩ := (Walk.mem_tokens_iff _ _ _ t).1 ht
  have hfilter := Walk.filter_tokens Walk.start start n (bytes.drop start)
  rw [List.drop_drop] at hfilter
  unfold continuesChain continuesOutsideComments
  rw [hoffset, drop_blankComments, Walk.find?_blanked _ (start + n), ← hfilter, List.find?_filter]
  simp only [Bool.decide_and, Bool.decide_eq_true]
  have hany (o : Option Token) :
      (o.map Token.byte == some fullStop) = o.any (·.byte == fullStop) := by
    cases o <;> rfl
  exact hany _

/-- A line break behind which a chain goes on, comments not passed over, is one behind which it goes on
in the text without comments. -/
theorem continuesOutsideComments_of (ht : t ∈ tokensFrom bytes start) (hline : t.isCode lineFeed)
    (h : continuesChain bytes t.offset) : continuesOutsideComments bytes start t.offset := by
  rw [← continuesChain_blankComments ht]
  obtain ⟨n, hoffset, hbyte, hregion, -⟩ := (Walk.mem_tokens_iff _ _ _ t).1 ht
  obtain ⟨hcode, hfeed⟩ : t.region = .code ∧ t.byte = lineFeed := by
    simpa [Token.isCode] using hline
  rw [hcode, hfeed] at hregion
  rw [hfeed] at hbyte
  have hdrop : bytes.drop (start + n) = lineFeed :: bytes.drop (start + n + 1) := by
    rw [List.getElem?_drop] at hbyte
    obtain ⟨hlt, hget⟩ := List.getElem?_eq_some_iff.1 hbyte
    rw [List.drop_eq_getElem_cons hlt, hget]
  have hnext : (bytes.drop (start + n + 1)).head? = (bytes.drop start)[n + 1]? := by
    rw [List.head?_drop, List.getElem?_drop, Nat.add_assoc]
  have hblank : isAsciiBlank lineFeed = true := rfl
  unfold continuesChain at h ⊢
  rw [hoffset, beq_iff_eq] at h ⊢
  rw [hdrop, List.find?_cons, hblank] at h
  -- Behind the line break the walk is in code, and blanks leave it there.
  rw [drop_blankComments, hdrop, Walk.blanked_cons, hnext, hregion]
  have hbehind := Walk.mode_step_of_region_eq_code hregion
  simpa [Region.isComment, hblank] using Walk.find?_blanked_of_code hbehind h

/-- In the text without comments a statement ends at the same tokens, but not at a line break behind
which a chain goes on. -/
theorem endsStatement_blankComments_iff (ht : t ∈ tokensFrom bytes start) :
    endsStatement (blankComments bytes start) t ↔ endsStatement bytes t ∧
      ¬(t.isCode lineFeed ∧ continuesOutsideComments bytes start t.offset) := by
  have hchain := continuesChain_blankComments ht
  have hkeeps := continuesOutsideComments_of ht
  unfold endsStatement Token.isCode at *
  rw [hchain]
  grind [lineFeed, semicolon, closeBrace, closeParen]

/-- The search in the text without comments is one over the tokens of the text itself. -/
theorem statementEnd_blankComments (bytes : List UInt8) (start : Nat) :
    statementEnd (blankComments bytes start) start =
      (((tokensFrom bytes start).find? (endsStatement (blankComments bytes start))).map
        Token.offset).getD bytes.length := by
  have hdrop := drop_blankComments bytes start 0
  rw [Nat.add_zero, Walk.after_zero] at hdrop
  rw [statementEnd_eq, length_blankComments, tokensFrom, hdrop]
  have hfind := Walk.find?_tokens_blanked (p := endsStatement (blankComments bytes start))
    (fun t ht => by simp [endsStatement, ht, space, semicolon, closeBrace, closeParen, lineFeed])
    (fun t ht => by
      unfold endsStatement
      cases hregion : t.region <;> simp_all [Region.isComment])
    Walk.start start (bytes.drop start)
  exact congrArg (fun o => (Option.map Token.offset o).getD bytes.length) hfind

/-- What a search finds, a narrower one finds as well, provided that it accepts it. -/
theorem find?_eq_some_of_imp {α : Type} {p q : α → Bool} {l : List α} {a : α}
    (himp : ∀ u ∈ l, q u → p u) (h : l.find? p = some a) (ha : q a) : l.find? q = some a := by
  obtain ⟨-, before, behind, rfl, hbefore⟩ := List.find?_eq_some_iff_append.1 h
  refine List.find?_eq_some_iff_append.2 ⟨ha, before, behind, rfl, fun u hu => ?_⟩
  have hnot := hbefore u hu
  cases hq : q u with
  | false => rfl
  | true =>
    rw [himp u (List.mem_append_left _ hu) hq] at hnot
    exact nomatch hnot

/-- A narrower search finds the same exactly if it accepts what the wider one finds. -/
theorem find?_eq_find?_iff {α : Type} {p q : α → Bool} {l : List α} (himp : ∀ u ∈ l, q u → p u) :
    l.find? q = l.find? p ↔ ∀ a, l.find? p = some a → q a := by
  constructor
  · intro hsame a ha
    exact List.find?_some (hsame.trans ha)
  · intro haccepts
    cases hfind : l.find? p with
    | none =>
      refine List.find?_eq_none.2 fun u hu hq => ?_
      exact List.find?_eq_none.1 hfind u hu (himp u hu hq)
    | some a => exact find?_eq_some_of_imp himp hfind (haccepts a hfind)

/-- A search finds a token exactly if the offset it leads to, that of the end of the text if it finds
nothing, is the one of the token. -/
theorem find?_eq_some_iff_offset {p : Token → Bool} (ht : t ∈ tokensFrom bytes start) :
    (tokensFrom bytes start).find? p = some t ↔
      (((tokensFrom bytes start).find? p).map Token.offset).getD bytes.length = t.offset := by
  cases hfind : (tokensFrom bytes start).find? p with
  | none =>
    have hlt := (List.getElem?_eq_some_iff.1 (getElem?_of_mem_tokensFrom ht)).1
    rw [Option.map_none, Option.getD_none]
    exact iff_of_false (Option.some_ne_none t).symm (Nat.ne_of_gt hlt)
  | some u =>
    rw [Option.map_some, Option.getD_some, Option.some_inj]
    exact ⟨congrArg Token.offset, eq_of_offset_eq (List.mem_of_find?_eq_some hfind) ht⟩

/-- Two searches that lead to one offset find the same. -/
theorem offset_find?_eq_iff {p q : Token → Bool} :
    (((tokensFrom bytes start).find? q).map Token.offset).getD bytes.length =
        (((tokensFrom bytes start).find? p).map Token.offset).getD bytes.length ↔
      (tokensFrom bytes start).find? q = (tokensFrom bytes start).find? p := by
  refine ⟨fun hsame => ?_, fun hsame => by rw [hsame]⟩
  cases hp : (tokensFrom bytes start).find? p with
  | some t =>
    refine (find?_eq_some_iff_offset (List.mem_of_find?_eq_some hp)).2 (hsame.trans ?_)
    rw [hp, Option.map_some, Option.getD_some]
  | none =>
    cases hq : (tokensFrom bytes start).find? q with
    | none => rfl
    | some u =>
      have hu := List.mem_of_find?_eq_some hq
      have hoffset := (find?_eq_some_iff_offset hu).1 hq
      have hfound := (find?_eq_some_iff_offset hu).2 (hsame.symm.trans hoffset)
      exact hfound.symm.trans hp

/-- A statement ends where it does in the text without comments, unless a comment cuts it short. -/
theorem statementEnd_blankComments_iff (bytes : List UInt8) (start : Nat) :
    statementEnd (blankComments bytes start) start = statementEnd bytes start ↔
      ¬ CutByComment bytes start := by
  have hnarrower : ∀ t ∈ tokensFrom bytes start, endsStatement (blankComments bytes start) t →
      endsStatement bytes t := fun t ht hends => ((endsStatement_blankComments_iff ht).1 hends).1
  rw [statementEnd_blankComments, statementEnd_eq bytes, offset_find?_eq_iff,
    find?_eq_find?_iff hnarrower]
  constructor
  · rintro haccepts ⟨t, ht, hoffset, hcut⟩
    rw [statementEnd_eq] at hoffset
    have hfind := (find?_eq_some_iff_offset ht).2 hoffset.symm
    exact ((endsStatement_blankComments_iff ht).1 (haccepts t hfind)).2 hcut
  · intro hnot t hfind
    have ht := List.mem_of_find?_eq_some hfind
    have hoffset := (find?_eq_some_iff_offset ht).1 hfind
    rw [← statementEnd_eq] at hoffset
    refine (endsStatement_blankComments_iff ht).2 ⟨List.find?_some hfind, fun hcut => ?_⟩
    exact hnot ⟨t, ht, hoffset.symm, hcut⟩

/-- Comments matter to where a statement ends: in an assertion with a comment between its line break and
the full stop behind that, the chain is cut off. -/
theorem not_forall_statementEnd_blankComments :
    ¬ ∀ (bytes : List UInt8) (start : Nat), regionAt (regions bytes) start = .code →
      statementEnd (blankComments bytes start) start = statementEnd bytes start := by
  intro h
  have hsame := h (Text.utf8 "expect(a)\n// why\n.toBe(1);\n".toList) 0 (by decide +kernel)
  revert hsame
  decide +kernel

end ManifestSync.Source
