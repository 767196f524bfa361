import ManifestSync.Proofs.Pattern.Position
import ManifestSync.Proofs.Source.Extent
import ManifestSync.Scan.DocComment

/-!
# The search for documentation comments

A search reads a comment at a position (`Reads`) if `/**` stands there, which opens a comment by the
map and is not the beginning of `/**/`, and a `*/` follows. `docCommentsFrom_cons_cases` says what the
search can do at one position; from it follow, each by induction over the text, that every comment
found is read at a position (`exists_reads_of_mem`), that they follow each other
(`pairwise_docCommentsFrom`) and that a comment which is read at a position is found unless one that is
found runs over it (`docCommentsFrom_complete`). Two facts keep the search from missing any: no `/**`
begins within another one, and behind a position from which no `*/` follows there is none at all, so
that the search may give up there.

The map is one of bytes. `mem_docComments` and `exists_mem_docComments` therefore say the same of bytes
(`DocAt`): the delimiters are bytes of ASCII, at which a text is cut into characters.
-/

namespace ManifestSync.Scan

open Source (Region regionAt blockRest slash star)
open Text (utf8 byteLength)

/-! ## The text before a close -/

/-- If a text is not closed, no end of it is. -/
theorem untilClose_eq_none_of_append {v t : List Char} (h : untilClose (v ++ t) = none) :
    untilClose t = none := by
  induction v with
  | nil => exact h
  | cons c v ih =>
    rw [List.cons_append, untilClose] at h
    split_ifs at h
    exact ih (Option.map_eq_none_iff.1 h)

/-- The text before a close in bytes: with the first close, or all of it if it has none. -/
theorem blockRest_utf8 (t : List Char) :
    blockRest (utf8 t) = (untilClose t).elim (utf8 t) (utf8 · ++ [star, slash]) := by
  induction t with
  | nil => rfl
  | cons c rest ih =>
    rw [untilClose, Text.utf8_cons]
    by_cases hc : c = '*'
    · subst hc
      have hslash : (utf8 rest).head? = some slash ↔ rest.head? = some '/' :=
        Text.head?_utf8_eq_some_iff (by decide)
      change blockRest (star :: utf8 rest) = _
      rw [blockRest]
      simp only [hslash, true_and]
      split_ifs with hclose
      · rfl
      · rw [ih]
        cases untilClose rest <;> rfl
    · have hstar : star ∉ String.utf8EncodeChar c := fun h =>
        Text.ne_of_mem_utf8EncodeChar (a := star) h (by decide) hc rfl
      rw [Source.blockRest_append hstar, ih, if_neg fun h => hc h.1]
      cases untilClose rest with
      | none => rfl
      | some body =>
        show _ = utf8 (c :: body) ++ [star, slash]
        rw [Text.utf8_cons, List.append_assoc]
        rfl

/-! ## One step of the search -/

/-- A comment is read at a position and ends at an offset. -/
def Reads (map : List Region) (c : Cursor) (stop : Nat) : Prop :=
  opensComment map c.offset c.behind = true ∧ ∃ z body, c.rest = '/' :: '*' :: '*' :: z ∧
    z.head? ≠ some '/' ∧ untilClose z = some body ∧ stop = c.offset + 3 + byteLength body + 2

variable {map : List Region}

/-- A comment that is read at a position ends in one place. -/
theorem Reads.stop_unique {c : Cursor} {stop stop' : Nat} (h : Reads map c stop)
    (h' : Reads map c stop') : stop = stop' := by
  obtain ⟨-, z, body, hrest, -, hbody, rfl⟩ := h
  obtain ⟨-, z', body', hrest', -, hbody', rfl⟩ := h'
  rw [hrest] at hrest'
  obtain rfl : z = z' := by simpa using hrest'
  rw [Option.some.inj (hbody.symm.trans hbody')]

/-- A comment that is read at a position ends behind it. -/
theorem Reads.offset_lt {c : Cursor} {stop : Nat} (h : Reads map c stop) : c.offset < stop := by
  obtain ⟨-, z, body, -, -, -, rfl⟩ := h
  omega

/-- Behind a `/**` the next position at which a comment is read is not within it. -/
theorem Reads.exists_append {here c : Cursor} {w z : List Char} {stop : Nat}
    (h : Reads map c stop) (hz : here.rest = '/' :: '*' :: '*' :: z) (hmoves : here.Moves w c)
    (hw : w ≠ []) : ∃ v, w = '/' :: '*' :: '*' :: v ∧ z = v ++ c.rest := by
  obtain ⟨-, z', -, hrest, -⟩ := h
  have htext := hz.symm.trans hmoves.rest
  match w, hw with
  | [a], _ => simp [hrest] at htext
  | [a, b], _ => simp [hrest] at htext
  | a :: b :: d :: v, _ =>
    simp only [List.cons_append, List.cons.injEq] at htext
    obtain ⟨rfl, rfl, rfl, rfl⟩ := htext
    exact ⟨v, rfl, rfl⟩

/-- The search at a position, with what it does behind it. -/
theorem docCommentsFrom_cons (map : List Region) (before : List Char) (offset resume : Nat)
    (ch : Char) (rest : List Char) :
    docCommentsFrom map before offset resume (ch :: rest) =
      let next := fun resume =>
        docCommentsFrom map (ch :: before) (offset + ch.utf8Size) resume rest
      if offset < resume ∨ ¬ ['/', '*', '*'].isPrefixOf (ch :: rest) then next resume
      else if !opensComment map offset before || rest.take 3 == ['*', '*', '/'] then next (offset + 3)
      else (untilClose (rest.drop 2)).elim [] fun body =>
        ⟨offset, offset + 3 + byteLength body + 2, (readBody body).1, (readBody body).2⟩ ::
          next (offset + 3 + byteLength body + 2) := by
  rw [docCommentsFrom]
  cases untilClose (rest.drop 2) <;> rfl

/-- What a search does at a position: it goes on behind the position and passes over no comment that
is read from there on, or it finds the comment that is read there and goes on behind that, or it gives
up at a `/**` behind which there is no close. -/
theorem docCommentsFrom_cons_cases (map : List Region) (before : List Char) (offset resume : Nat)
    (ch : Char) (rest : List Char) :
    let here : Cursor := ⟨offset, before, ch :: rest⟩
    let found := docCommentsFrom map before offset resume (ch :: rest)
    let next := fun resume =>
      docCommentsFrom map (ch :: before) (offset + ch.utf8Size) resume rest
    (∃ resume', found = next resume' ∧ resume ≤ resume' ∧
      ∀ c w stop, here.Moves w c → resume ≤ c.offset → Reads map c stop →
        w ≠ [] ∧ resume' ≤ c.offset) ∨
    (resume ≤ offset ∧ ∃ d, d.start = offset ∧ Reads map here d.stop ∧ found = d :: next d.stop) ∨
    (found = [] ∧ ∃ z, ch :: rest = '/' :: '*' :: '*' :: z ∧ untilClose z = none) := by
  intro here found next
  have hfound : found = _ := docCommentsFrom_cons map before offset resume ch rest
  by_cases hpass : offset < resume ∨ ¬ ['/', '*', '*'].isPrefixOf (ch :: rest)
  · refine .inl ⟨resume, by rw [hfound, if_pos hpass], Nat.le_refl _, ?_⟩
    rintro c w stop hmoves hresume ⟨-, z, -, hrest, -⟩
    refine ⟨?_, hresume⟩
    rintro rfl
    obtain rfl := hmoves.eq_of_offset_eq hmoves.offset
    rcases hpass with hlt | hnot
    · exact Nat.not_lt_of_le hresume hlt
    · rw [show ch :: rest = _ from hrest] at hnot
      exact hnot rfl
  · obtain ⟨hresume, hopen⟩ := not_or.1 hpass
    have hresume : resume ≤ offset := Nat.le_of_not_lt hresume
    obtain ⟨z, hz⟩ := List.isPrefixOf_iff_prefix.1 (not_not.1 hopen)
    have hz : ch :: rest = '/' :: '*' :: '*' :: z := hz.symm
    obtain ⟨rfl, rfl⟩ := List.cons.inj hz
    rw [if_neg hpass] at hfound
    -- Whether the `/**` is skipped decides as well whether a comment is read there.
    have hreads : ∀ {stop}, Reads map here stop → opensComment map offset before = true ∧
        (('*' :: '*' :: z).take 3 == ['*', '*', '/']) = false := by
      rintro stop ⟨hopens, z', body, hz', hhead, -⟩
      obtain rfl : z = z' := by simpa [here] using hz'
      refine ⟨hopens, beq_false_of_ne fun h => hhead ?_⟩
      cases z with
      | nil => simp at h
      | cons c z => simpa using h
    split_ifs at hfound with hskip
    · refine .inl ⟨offset + 3, hfound, by omega, ?_⟩
      intro c w stop hmoves _ hread
      have hw : w ≠ [] := by
        rintro rfl
        obtain rfl := hmoves.eq_of_offset_eq hmoves.offset
        obtain ⟨hopens, htake⟩ := hreads hread
        rw [hopens, htake] at hskip
        exact absurd hskip (by decide)
      refine ⟨hw, ?_⟩
      obtain ⟨v, rfl, -⟩ := hread.exists_append hz hmoves hw
      have hsizes : ('/' : Char).utf8Size = 1 ∧ ('*' : Char).utf8Size = 1 := by decide
      rw [hmoves.offset, byteLength, byteLength, byteLength, hsizes.1, hsizes.2]
      show offset + 3 ≤ offset + _
      omega
    · cases hclose : untilClose z with
      | none =>
        refine .inr (.inr ⟨?_, z, rfl, hclose⟩)
        rw [hfound, show ('*' :: '*' :: z).drop 2 = z from rfl, hclose, Option.elim_none]
      | some body =>
        refine .inr (.inl ⟨hresume, ⟨offset, offset + 3 + byteLength body + 2, (readBody body).1,
          (readBody body).2⟩, rfl, ?_, ?_⟩)
        · simp only [Bool.or_eq_true, Bool.not_eq_true', not_or] at hskip
          refine ⟨by simpa using hskip.1, z, body, rfl, ?_, hclose, rfl⟩
          intro hhead
          obtain ⟨more, rfl⟩ := List.head?_eq_some_iff.1 hhead
          exact hskip.2 rfl
        · rw [hfound, show ('*' :: '*' :: z).drop 2 = z from rfl, hclose, Option.elim_some]

/-! ## The whole search -/

/-- A comment that is found is read at a position which the search reaches. -/
theorem exists_reads_of_mem {before : List Char} {offset resume : Nat} {rest : List Char}
    {d : DocComment} (hd : d ∈ docCommentsFrom map before offset resume rest) :
    ∃ c w, (⟨offset, before, rest⟩ : Cursor).Moves w c ∧ d.start = c.offset ∧ resume ≤ c.offset ∧
      Reads map c d.stop := by
  induction rest generalizing before offset resume with
  | nil => exact absurd hd List.not_mem_nil
  | cons ch rest ih =>
    -- What is found behind the position is reached over its character.
    have hnext : ∀ {resume'}, resume ≤ resume' →
        d ∈ docCommentsFrom map (ch :: before) (offset + ch.utf8Size) resume' rest →
        ∃ c w, (⟨offset, before, ch :: rest⟩ : Cursor).Moves w c ∧ d.start = c.offset ∧
          resume ≤ c.offset ∧ Reads map c d.stop := by
      intro resume' hle hd
      obtain ⟨c, w, hmoves, hstart, hresume, hreads⟩ := ih hd
      exact ⟨c, [ch] ++ w, (Cursor.moves_cons _ _ _ _).trans hmoves, hstart,
        Nat.le_trans hle hresume, hreads⟩
    rcases docCommentsFrom_cons_cases map before offset resume ch rest with
      ⟨resume', hfound, hle, -⟩ | ⟨hresume, d', hstart, hreads, hfound⟩ | ⟨hfound, -⟩
    · rw [hfound] at hd
      exact hnext hle hd
    · rw [hfound] at hd
      rcases List.mem_cons.1 hd with rfl | hd
      · exact ⟨_, [], .refl _, hstart, hresume, hreads⟩
      · have hlt := hreads.offset_lt
        exact hnext (Nat.le_trans hresume (Nat.le_of_lt hlt)) hd
    · rw [hfound] at hd
      exact absurd hd List.not_mem_nil

/-- A comment that is found has the summary and the sections of a body. -/
theorem exists_body_of_mem {before : List Char} {offset resume : Nat} {rest : List Char}
    {d : DocComment} (hd : d ∈ docCommentsFrom map before offset resume rest) :
    ∃ body, readBody body = (d.summary, d.sections) := by
  induction rest generalizing before offset resume with
  | nil => exact absurd hd List.not_mem_nil
  | cons ch rest ih =>
    rw [docCommentsFrom_cons] at hd
    dsimp only at hd
    split_ifs at hd
    · exact ih hd
    · exact ih hd
    · cases hclose : untilClose (rest.drop 2) with
      | none =>
        rw [hclose] at hd
        exact absurd hd List.not_mem_nil
      | some body =>
        rw [hclose] at hd
        rcases List.mem_cons.1 hd with rfl | hd
        · exact ⟨body, rfl⟩
        · exact ih hd

/-- The comments that are found follow each other. -/
theorem pairwise_docCommentsFrom (map : List Region) (before : List Char) (offset resume : Nat)
    (rest : List Char) :
    (docCommentsFrom map before offset resume rest).Pairwise (·.stop ≤ ·.start) := by
  induction rest generalizing before offset resume with
  | nil => exact .nil
  | cons ch rest ih =>
    rcases docCommentsFrom_cons_cases map before offset resume ch rest with
      ⟨resume', hfound, -⟩ | ⟨-, d, -, -, hfound⟩ | ⟨hfound, -⟩
    · rw [hfound]
      exact ih _ _ _
    · rw [hfound]
      refine .cons (fun d' hd' => ?_) (ih _ _ _)
      obtain ⟨c, w, -, hstart, hresume, -⟩ := exists_reads_of_mem hd'
      rw [hstart]
      exact hresume
    · rw [hfound]
      exact .nil

/-- A comment that is read at a position is found, unless one that is found runs over the position. -/
theorem docCommentsFrom_complete {before : List Char} {offset resume : Nat} {rest : List Char}
    {c : Cursor} {w : List Char} {stop : Nat}
    (hmoves : (⟨offset, before, rest⟩ : Cursor).Moves w c) (hresume : resume ≤ c.offset)
    (h : Reads map c stop) :
    ∃ d ∈ docCommentsFrom map before offset resume rest,
      d.start = c.offset ∧ d.stop = stop ∨ d.start < c.offset ∧ c.offset < d.stop := by
  induction rest generalizing before offset resume w with
  | nil =>
    obtain ⟨-, z, body, hrest, -⟩ := h
    have hnil := hmoves.rest
    rw [hrest] at hnil
    exact absurd hnil.symm (List.append_ne_nil_of_right_ne_nil _ (List.cons_ne_nil _ _))
  | cons ch rest ih =>
    -- Behind the first character the search is the one from there.
    have hnext : ∀ {resume'}, w ≠ [] → resume' ≤ c.offset →
        ∃ d ∈ docCommentsFrom map (ch :: before) (offset + ch.utf8Size) resume' rest,
          d.start = c.offset ∧ d.stop = stop ∨ d.start < c.offset ∧ c.offset < d.stop := by
      intro resume' hw hle
      obtain ⟨ch', w, rfl⟩ := List.exists_cons_of_ne_nil hw
      exact ih hmoves.of_cons.2 hle
    rcases docCommentsFrom_cons_cases map before offset resume ch rest with
      ⟨resume', hfound, -, hpass⟩ | ⟨-, d, hstart, hreads, hfound⟩ | ⟨-, z, hz, hclose⟩
    · obtain ⟨hw, hle⟩ := hpass c w stop hmoves hresume h
      rw [hfound]
      exact hnext hw hle
    · rw [hfound]
      by_cases hw : w = []
      · subst hw
        obtain rfl := hmoves.eq_of_offset_eq hmoves.offset
        exact ⟨d, List.mem_cons_self, .inl ⟨hstart, hreads.stop_unique h⟩⟩
      · by_cases hle : d.stop ≤ c.offset
        · obtain ⟨d', hd', hcovers⟩ := hnext hw hle
          exact ⟨d', List.mem_cons_of_mem _ hd', hcovers⟩
        · refine ⟨d, List.mem_cons_self, .inr ⟨?_, Nat.lt_of_not_le hle⟩⟩
          rw [hstart]
          exact hmoves.offset_lt hw
    · -- No comment is read behind a position from which no close follows.
      exfalso
      have hread := h
      obtain ⟨-, z', body, hrest, -, hbody, -⟩ := h
      by_cases hw : w = []
      · subst hw
        obtain rfl := hmoves.eq_of_offset_eq hmoves.offset
        obtain rfl : z = z' := by simpa using hz.symm.trans hrest
        exact nomatch hclose.symm.trans hbody
      · obtain ⟨v, -, rfl⟩ := hread.exists_append hz hmoves hw
        rw [hrest] at hclose
        have hnone := untilClose_eq_none_of_append (v := ['/', '*', '*'])
          (untilClose_eq_none_of_append hclose)
        exact nomatch hnone.symm.trans hbody

/-! ## The search in bytes -/

/-- From one offset of a text to another stands a comment that a search looks for. -/
structure DocAt (bytes : List UInt8) (start stop : Nat) : Prop where
  /-- At the first offset stands `/**`, but not `/**/`, and the other is behind the first `*/` that
  follows. -/
  text : ∃ z, bytes.drop start = slash :: star :: star :: z ∧ z.head? ≠ some slash ∧
    [star, slash] <:+ blockRest z ∧ stop = start + 3 + (blockRest z).length
  /-- The map has the slash in a block comment. -/
  region : regionAt (Source.regions bytes) start = .blockComment
  /-- There is no byte in front of it, or the map has that in no comment, or it closes one. -/
  front : start = 0 ∨ (regionAt (Source.regions bytes) (start - 1)).isComment = false ∨
    [star, slash] <:+ bytes.take start

/-- A text ends with a close exactly if it does so in bytes. -/
theorem isSuffix_utf8_iff {t : List Char} :
    [star, slash] <:+ utf8 t ↔ ['*', '/'] <:+ t := by
  constructor
  · rintro ⟨x, hx⟩
    obtain ⟨u, v, rfl, -, hv⟩ := Text.exists_of_utf8_eq_append (b := star) hx.symm (by decide)
    obtain ⟨v, rfl, hnil⟩ := Text.exists_cons_of_utf8_eq_cons hv (by decide)
    rw [Text.eq_nil_of_utf8_eq_nil hnil]
    exact List.suffix_append u _
  · rintro ⟨u, rfl⟩
    rw [Text.utf8_append]
    exact List.suffix_append (utf8 u) _

/-- A text that ends with a close has one. -/
theorem untilClose_ne_none_of_isSuffix {t : List Char} (h : ['*', '/'] <:+ t) :
    untilClose t ≠ none := by
  obtain ⟨u, rfl⟩ := h
  exact fun hnone => nomatch untilClose_eq_none_of_append hnone

/-- A comment is read at a position exactly if a search in bytes looks for it. -/
theorem reads_iff_docAt {chars : List Char} {c : Cursor} (hc : c.IsIn chars) {stop : Nat} :
    Reads (Source.regions (utf8 chars)) c stop ↔ DocAt (utf8 chars) c.offset stop := by
  have hoffset : (utf8 c.behind.reverse).length = c.offset := by
    rw [Text.length_utf8, Text.byteLength_reverse, hc.offset_eq]
  have hbytes : utf8 chars = utf8 c.behind.reverse ++ utf8 c.rest := by
    rw [← Text.utf8_append, hc.text_eq]
  have hdrop : (utf8 chars).drop c.offset = utf8 c.rest := by
    rw [hbytes, List.drop_left' hoffset]
  have htake : (utf8 chars).take c.offset = utf8 c.behind.reverse := by
    rw [hbytes, List.take_left' hoffset]
  have hclosed : c.behind.take 2 = ['/', '*'] ↔ [star, slash] <:+ (utf8 chars).take c.offset := by
    rw [htake, isSuffix_utf8_iff, ← List.reverse_prefix, List.reverse_reverse]
    exact ⟨fun h => List.prefix_iff_eq_take.2 h.symm, fun h => (List.prefix_iff_eq_take.1 h).symm⟩
  have hopens : opensComment (Source.regions (utf8 chars)) c.offset c.behind = true ↔
      regionAt (Source.regions (utf8 chars)) c.offset = .blockComment ∧
        (c.offset = 0 ∨ (regionAt (Source.regions (utf8 chars)) (c.offset - 1)).isComment = false ∨
          [star, slash] <:+ (utf8 chars).take c.offset) := by
    rw [← hclosed]
    simp [opensComment, or_assoc]
  constructor
  · rintro ⟨h, z, body, hrest, hhead, hbody, rfl⟩
    obtain ⟨hregion, hfront⟩ := hopens.1 h
    have hblock : blockRest (utf8 z) = utf8 body ++ [star, slash] := by
      rw [blockRest_utf8, hbody]
      rfl
    refine ⟨⟨utf8 z, ?_, ?_, ?_, ?_⟩, hregion, hfront⟩
    · rw [hdrop, hrest]
      rfl
    · rwa [Ne, Text.head?_utf8_eq_some_iff (by decide)]
    · rw [hblock]
      exact List.suffix_append _ _
    · rw [hblock, List.length_append, Text.length_utf8]
      rfl
  · rintro ⟨⟨z', htext, hhead, hclose, rfl⟩, hregion, hfront⟩
    rw [hdrop] at htext
    -- The delimiters are cut off one character after the other.
    obtain ⟨_, hrest, hbehind⟩ := Text.exists_cons_of_utf8_eq_cons htext (by decide)
    obtain ⟨_, rfl, hbehind'⟩ := Text.exists_cons_of_utf8_eq_cons hbehind (by decide)
    obtain ⟨z, rfl, rfl⟩ := Text.exists_cons_of_utf8_eq_cons hbehind' (by decide)
    rw [blockRest_utf8] at hclose ⊢
    cases hbody : untilClose z with
    | none =>
      rw [hbody] at hclose
      exact absurd hbody (untilClose_ne_none_of_isSuffix (isSuffix_utf8_iff.1 hclose))
    | some body =>
      refine ⟨hopens.2 ⟨hregion, hfront⟩, z, body, hrest, ?_, hbody, ?_⟩
      · rwa [Ne, Text.head?_utf8_eq_some_iff (by decide)] at hhead
      · show _ + (utf8 body ++ [star, slash]).length = _
        rw [List.length_append, Text.length_utf8]
        rfl

/-- A documentation comment that is found is one that the search looks for. -/
theorem docAt_of_mem_docComments {chars : List Char} {d : DocComment}
    (hd : d ∈ docComments (Source.regions (utf8 chars)) chars) :
    DocAt (utf8 chars) d.start d.stop := by
  obtain ⟨c, w, hmoves, hstart, -, hreads⟩ := exists_reads_of_mem hd
  rw [hstart]
  exact (reads_iff_docAt (hmoves.isIn (Cursor.isIn_start chars))).1 hreads

/-- A comment that the search looks for is found, unless one that is found runs over its start. -/
theorem exists_mem_docComments {chars : List Char} {start stop : Nat}
    (h : DocAt (utf8 chars) start stop) :
    ∃ d ∈ docComments (Source.regions (utf8 chars)) chars,
      d.start = start ∧ d.stop = stop ∨ d.start < start ∧ start < d.stop := by
  obtain ⟨z, htext, -⟩ := h.text
  have hsplit : utf8 chars = (utf8 chars).take start ++ slash :: (star :: star :: z) := by
    rw [← htext, List.take_append_drop]
  obtain ⟨u, v, rfl, hu, -⟩ := Text.exists_of_utf8_eq_append hsplit (by decide)
  -- The slash is a character, so the text has a position at its offset.
  have hc : Cursor.IsIn (u ++ Char.ofNat slash.toNat :: v)
      ⟨start, u.reverse, Char.ofNat slash.toNat :: v⟩ := by
    refine ⟨by rw [List.reverse_reverse], ?_⟩
    have hlength := congrArg List.length htext
    rw [List.length_drop, List.length_cons] at hlength
    show start = byteLength u.reverse
    rw [Text.byteLength_reverse, ← Text.length_utf8, hu, List.length_take]
    omega
  exact docCommentsFrom_complete hc.moves_start (Nat.zero_le _) ((reads_iff_docAt hc).2 h)

end ManifestSync.Scan
