import ManifestSync.Proofs.Scan.Declaration
import ManifestSync.Proofs.Scan.DocComment
import ManifestSync.Proofs.Scan.DocCursor
import ManifestSync.Proofs.Scan.Extraction
import ManifestSync.Proofs.Source.Bounds

/-!
# The slices of an extraction

An extraction cuts its text at offsets that come from the matches of patterns, from searches over the
tokens of a walk, which may run to the end of the text, and from the window. `SafelySliced` says that
each of them is where a text can be cut, and in front of the one that it is cut up to.

The offsets of matches are positions of the text. A search ends at a byte of ASCII
(`exists_byte_of_searchFrom`), or else the end of the text is taken. Only the end of the window can be
inside a character, and is moved down to a boundary; the title in front of it ends at one, so it does
not come to lie before that.
-/

namespace ManifestSync.Scan

open Source
open Text (IsBoundary)

/-! ## What a search ends at -/

section
variable {bytes : List UInt8} {start e : Nat}

/-- A search over the tokens of a walk that ends at some bytes alone ends at such a byte of the text,
and at none before its start. -/
theorem exists_byte_of_searchFrom {σ : Type} {visit : σ → Token → Verdict σ} {state : σ}
    {ends : List UInt8} (hvisit : ∀ s t, visit s t = .found e → t.offset = e ∧ t.byte ∈ ends)
    (h : searchFrom visit state bytes start = some e) :
    start ≤ e ∧ ∃ b ∈ ends, bytes[e]? = some b := by
  rw [searchFrom_eq] at h
  obtain ⟨t, ht, ⟨s, hfound⟩, -⟩ := exists_of_searchTokens (pairwise_tokensFrom bytes start) h
  obtain ⟨rfl, hbyte⟩ := hvisit s t hfound
  exact ⟨(Walk.getElem?_of_mem_tokens ht).1, t.byte, hbyte, getElem?_of_mem_tokensFrom ht⟩

/-- A body opens at a brace. -/
theorem getElem?_bodyOpen (h : bodyOpen bytes start = some e) :
    start ≤ e ∧ bytes[e]? = some openBrace := by
  have hvisit : ∀ trail t, bodyBrace trail t = .found e → t.offset = e ∧ t.byte ∈ [openBrace] := by
    intro trail t hfound
    obtain ⟨hoffset, hbrace, -⟩ := bodyBrace_eq_found hfound
    unfold Token.isCode at hbrace
    exact ⟨hoffset, by grind⟩
  obtain ⟨hle, b, hb, hbyte⟩ := exists_byte_of_searchFrom hvisit h
  rw [List.mem_singleton.1 hb] at hbyte
  exact ⟨hle, hbyte⟩

/-- A block closes at a brace behind its opening. -/
theorem getElem?_blockEnd (h : blockEnd bytes start = some e) :
    start < e ∧ bytes[e]? = some closeBrace := by
  have hvisit : ∀ depth t, closingBrace depth t = .found e →
      t.offset = e ∧ t.byte ∈ [closeBrace] := by
    intro depth t hfound
    unfold closingBrace at hfound
    grind
  obtain ⟨hle, b, hb, hbyte⟩ := exists_byte_of_searchFrom hvisit h
  rw [List.mem_singleton.1 hb] at hbyte
  exact ⟨hle, hbyte⟩

/-- A call closes at a parenthesis. -/
theorem getElem?_callEnd (h : callEnd bytes start = some e) :
    start ≤ e ∧ bytes[e]? = some closeParen := by
  have hvisit : ∀ u t, closingParen u t = .found e → t.offset = e ∧ t.byte ∈ [closeParen] := by
    intro u t hfound
    unfold closingParen Token.isCode at hfound
    grind
  obtain ⟨hle, b, hb, hbyte⟩ := exists_byte_of_searchFrom hvisit h
  rw [List.mem_singleton.1 hb] at hbyte
  exact ⟨hle, hbyte⟩

/-- The bytes at which a statement ends. -/
def statementEnds : List UInt8 := [semicolon, closeBrace, closeParen, lineFeed]

/-- They are bytes of ASCII, and none of them is the first letter of an assertion. -/
theorem ascii_of_mem_statementEnds {b : UInt8} (h : b ∈ statementEnds) :
    b.toNat < 128 ∧ b ≠ 101 := by
  simp only [statementEnds, List.mem_cons, List.not_mem_nil, or_false] at h
  rcases h with rfl | rfl | rfl | rfl <;> decide

/-- A statement ends at one of these bytes, or at the end of the text. -/
theorem statementEnd_cases (bytes : List UInt8) (start : Nat) :
    statementEnd bytes start = bytes.length ∨ start ≤ statementEnd bytes start ∧
      ∃ b ∈ statementEnds, bytes[statementEnd bytes start]? = some b := by
  unfold statementEnd
  cases h : searchFrom (statementStop bytes) () bytes start with
  | none => exact .inl rfl
  | some e =>
    have hvisit : ∀ u t, statementStop bytes u t = .found e →
        t.offset = e ∧ t.byte ∈ statementEnds := by
      intro u t hfound
      unfold statementStop at hfound
      grind [statementEnds]
    exact .inr (exists_byte_of_searchFrom hvisit h)

end

/-! ## The offsets that a text is cut at -/

/-- A source has a slice between two offsets. -/
def SourceText.Delimits (s : SourceText) (start stop : Nat) : Prop :=
  ∃ w, Text.slice? s.chars start stop = some w

/-- If the options of a declaration are taken to end with the window, because it has no body and its
call does not close, the offset of that end does not overflow. -/
def OptionsFit (settings : Settings) (s : SourceText) (l : Located) : Prop :=
  l.body = none → callEnd s.bytes l.declaration.titleEnd = none →
    l.declaration.titleEnd + settings.window.toNat < UInt64.size

/-- The offsets at which an extraction cuts its text are in order and none is inside a character. -/
structure SafelySliced (settings : Settings) (s : SourceText) : Prop where
  /-- The title of a declaration ends behind the start of the declaration. -/
  title : ∀ d ∈ codeDeclarations s, d.start < d.titleEnd ∧
    IsBoundary s.chars d.start ∧ IsBoundary s.chars d.titleEnd
  /-- A body opens behind the title and closes behind that, in the text or at its end. -/
  body : ∀ l ∈ located settings s, ∀ opening closing, l.body = some (opening, closing) →
    l.declaration.titleEnd ≤ opening ∧ opening < closing ∧ closing ≤ s.size ∧
      IsBoundary s.chars opening ∧ s.Delimits (opening + 1) closing
  /-- The options of a declaration stand behind its title, unless the offset of their end overflows. -/
  options : ∀ l ∈ located settings s, OptionsFit settings s l →
    l.declaration.titleEnd ≤ optionsEnd settings s l ∧
      s.Delimits l.declaration.titleEnd (optionsEnd settings s l)
  /-- An assertion in a body starts in the body, and ends behind its start and in the body. -/
  assertion : ∀ l ∈ located settings s, ∀ opening closing, l.body = some (opening, closing) →
    ∀ offset ∈ assertions s.chars (opening + 1) closing, opening < offset ∧
      offset < min (statementEnd s.bytes offset) closing ∧
      s.Delimits offset (min (statementEnd s.bytes offset) closing)
  /-- A documentation comment that starts in front of a declaration ends in front of it, and the text
  between the two can be cut out. -/
  doc : ∀ d ∈ codeDeclarations s, ∀ doc ∈ docComments s.regions s.chars, doc.start ≤ d.start →
    doc.stop ≤ d.start ∧ s.Delimits doc.stop d.start
  /-- The search for documentation comments comes to its end: it has a result at every cursor. -/
  search : DocRun s.regions s.chars 0 (docComments s.regions s.chars)
  /-- Every cursor of that search is where the text can be cut. -/
  cursor : ∀ cursor, ReachesCursor s.regions s.chars cursor → IsBoundary s.chars cursor
  /-- Going down from an offset to where the text can be cut does not go below zero. -/
  floor : ∀ offset, Text.descend? s.chars (min offset s.size) =
    some (Text.floorBoundary s.chars offset)

variable {settings : Settings} {s : SourceText}

/-- A byte of ASCII in a source can be cut off. -/
theorem isBoundary_of_getElem? {offset : Nat} {b : UInt8} (hbyte : s.bytes[offset]? = some b)
    (hb : b.toNat < 128) : IsBoundary s.chars offset ∧ IsBoundary s.chars (offset + 1) := by
  rw [s.bytes_eq] at hbyte
  exact Text.isBoundary_of_ascii hbyte hb

/-- A source can be cut at its end. -/
theorem isBoundary_size (s : SourceText) : IsBoundary s.chars s.size := by
  rw [SourceText.size, s.bytes_eq, Text.length_utf8]
  exact Text.isBoundary_byteLength s.chars

/-- A declaration starts and its title ends where the text can be cut. -/
theorem isBoundary_of_mem_declarations {source : List Char} {d : Declaration}
    (h : d ∈ declarations source) : IsBoundary source d.start ∧ IsBoundary source d.titleEnd := by
  obtain ⟨m, hm, -, hread⟩ := mem_declarations_iff.1 h
  obtain ⟨hstart, hstop⟩ := start_of_ofMatch? hread
  obtain ⟨hin, hat⟩ := Pattern.of_mem_findAll hm
  obtain ⟨-, w, hmoves, -⟩ := Pattern.moves_of_matchAt? hat
  rw [hstart, hstop]
  exact ⟨isBoundary_of_isIn hin, isBoundary_of_isIn (hmoves.isIn hin)⟩

/-- The title of a declaration that is located ends where the text can be cut. -/
theorem isBoundary_titleEnd {l : Located} (hl : l ∈ located settings s) :
    IsBoundary s.chars l.declaration.titleEnd := by
  rw [located_eq] at hl
  obtain ⟨d, hd, rfl⟩ := List.mem_map.1 hl
  exact (isBoundary_of_mem_declarations (List.mem_filter.1 hd).1).2

/-- Boundaries in order delimit a slice. -/
theorem delimits {start stop : Nat} (hle : start ≤ stop) (hstart : IsBoundary s.chars start)
    (hstop : IsBoundary s.chars stop) : s.Delimits start stop :=
  Text.exists_slice?_iff.2 ⟨hle, hstart, hstop⟩

/-- A byte of a source is none behind its end. -/
theorem lt_size_of_getElem? {offset : Nat} {b : UInt8} (hbyte : s.bytes[offset]? = some b) :
    offset < s.size := (List.getElem?_eq_some_iff.1 hbyte).1

/-! ## Bodies and options -/

/-- A block closes behind its opening, where the text can be cut. -/
theorem blockEnd_bounds {opening : Nat} (hopening : opening < s.size) :
    opening < (blockEnd s.bytes opening).getD s.size ∧
      (blockEnd s.bytes opening).getD s.size ≤ s.size ∧
      IsBoundary s.chars ((blockEnd s.bytes opening).getD s.size) := by
  cases hclose : blockEnd s.bytes opening with
  | none => exact ⟨hopening, Nat.le_refl _, isBoundary_size s⟩
  | some closing =>
    obtain ⟨hlt, hbyte⟩ := getElem?_blockEnd hclose
    exact ⟨hlt, Nat.le_of_lt (lt_size_of_getElem? hbyte),
      (isBoundary_of_getElem? hbyte (by decide)).1⟩

/-- Where a body stands. -/
theorem body_bounds {l : Located} (hl : l ∈ located settings s) {opening closing : Nat}
    (hbody : l.body = some (opening, closing)) :
    l.declaration.titleEnd ≤ opening ∧ opening < closing ∧ closing ≤ s.size ∧
      IsBoundary s.chars opening ∧ s.Delimits (opening + 1) closing := by
  rw [located_eq] at hl
  obtain ⟨d, -, rfl⟩ := List.mem_map.1 hl
  obtain ⟨opening', hopen, heq⟩ := Option.map_eq_some_iff.1 hbody
  obtain ⟨rfl, rfl⟩ := Prod.mk.inj heq
  obtain ⟨hle, hbyte⟩ := getElem?_bodyOpen hopen
  obtain ⟨hlt, hsize, hclosing⟩ := blockEnd_bounds (lt_size_of_getElem? hbyte)
  obtain ⟨hopening, hbehind⟩ := isBoundary_of_getElem? hbyte (by decide)
  exact ⟨hle, hlt, hsize, hopening, delimits hlt hbehind hclosing⟩

/-- Where the options of a declaration end. -/
theorem optionsEnd_bounds {l : Located} (hl : l ∈ located settings s)
    (hfits : OptionsFit settings s l) :
    l.declaration.titleEnd ≤ optionsEnd settings s l ∧
      IsBoundary s.chars (optionsEnd settings s l) := by
  unfold optionsEnd
  cases hbody : l.body with
  | some body =>
    obtain ⟨hle, -, -, hopening, -⟩ := body_bounds hl hbody
    exact ⟨hle, hopening⟩
  | none =>
    cases hcall : callEnd s.bytes l.declaration.titleEnd with
    | some e =>
      obtain ⟨hle, hbyte⟩ := getElem?_callEnd hcall
      exact ⟨hle, (isBoundary_of_getElem? hbyte (by decide)).1⟩
    | none =>
      -- The title ends at a boundary in the window, and the greatest one is taken.
      have hreach : settings.reach l.declaration.titleEnd =
          l.declaration.titleEnd + settings.window.toNat :=
        Nat.mod_eq_of_lt (hfits hbody hcall)
      obtain ⟨⟨hboundary, -⟩, hgreatest⟩ :=
        Text.isGreatest_floorBoundary s.chars (settings.reach l.declaration.titleEnd)
      refine ⟨hgreatest ⟨isBoundary_titleEnd hl, ?_⟩, hboundary⟩
      rw [hreach]
      exact Nat.le_add_right _ _

/-! ## Assertions -/

/-- An assertion starts with the first letter of its keyword. -/
theorem exists_rest_of_assertion {c : Cursor} {m : Match}
    (h : assertionPattern.matchAt? c = some m) : ∃ z, c.rest = 'e' :: z := by
  obtain ⟨t, ht, -⟩ := Pattern.exists_mem_ends_of_matchAt? h
  -- The parts of the pattern behind the keyword do not matter.
  obtain ⟨_, ht, -⟩ := Pattern.mem_ends_append.1 ht
  obtain ⟨_, ht, -⟩ := Pattern.mem_ends_append.1 ht
  obtain ⟨_, ht, -⟩ := Pattern.mem_ends_append.1 ht
  obtain ⟨_, hboundary, hword⟩ := Pattern.mem_ends_append.1 ht
  obtain rfl := Pattern.eq_of_mem_ite hboundary
  exact ⟨_, (Pattern.mem_ends_text hword).rest⟩

/-- An assertion that is found stands between the offsets, and its letter in the text. -/
theorem exists_of_mem_assertions {source : List Char} {start stop offset : Nat}
    (h : offset ∈ assertions source start stop) : start ≤ offset ∧ offset < stop ∧
      ∃ before behind, source = before ++ 'e' :: behind ∧ Text.byteLength before = offset := by
  unfold assertions at h
  cases hslice : Text.slice? source start stop with
  | none =>
    rw [hslice] at h
    exact absurd h List.not_mem_nil
  | some body =>
    rw [hslice] at h
    obtain ⟨m, hm, rfl⟩ := List.mem_map.1 h
    obtain ⟨hin, hat⟩ := Pattern.of_mem_findAll hm
    obtain ⟨-, w, hmoves, -⟩ := Pattern.moves_of_matchAt? hat
    have hlt := Pattern.offset_lt_of_matchAt? rfl hat
    have hle := (hmoves.isIn hin).offset_le
    obtain ⟨z, hz⟩ := exists_rest_of_assertion hat
    obtain ⟨u, v, rfl, rfl, rfl⟩ := Text.exists_of_slice? hslice
    refine ⟨Nat.le_add_right _ _, by omega, u ++ m.start.behind.reverse, z ++ v, ?_, ?_⟩
    · rw [← hin.text_eq, hz]
      simp
    · rw [Text.byteLength_append, Text.byteLength_reverse, ← hin.offset_eq]

/-- Where an assertion in a body stands. -/
theorem assertion_bounds {opening closing offset : Nat} (hclosing : IsBoundary s.chars closing)
    (h : offset ∈ assertions s.chars (opening + 1) closing) :
    opening < offset ∧ offset < min (statementEnd s.bytes offset) closing ∧
      s.Delimits offset (min (statementEnd s.bytes offset) closing) := by
  obtain ⟨hopening, hlt, before, behind, hchars, hlength⟩ := exists_of_mem_assertions h
  have hstart : IsBoundary s.chars offset := by
    rw [hchars, ← hlength]
    exact Text.isBoundary_append before _
  have hletter : s.bytes[offset]? = some 101 := by
    rw [s.bytes_eq, hchars, ← hlength, Text.getElem?_utf8_append]
    decide
  -- The statement does not end at the letter, and where it ends the text can be cut.
  have hend : offset < statementEnd s.bytes offset ∧
      IsBoundary s.chars (statementEnd s.bytes offset) := by
    rcases statementEnd_cases s.bytes offset with hsize | ⟨hle, b, hb, hbyte⟩
    · rw [hsize]
      exact ⟨lt_size_of_getElem? hletter, isBoundary_size s⟩
    · obtain ⟨hascii, hother⟩ := ascii_of_mem_statementEnds hb
      refine ⟨Nat.lt_of_le_of_ne hle fun heq => ?_, (isBoundary_of_getElem? hbyte hascii).1⟩
      rw [← heq, hletter] at hbyte
      exact hother (Option.some.inj hbyte).symm
  have hmin : IsBoundary s.chars (min (statementEnd s.bytes offset) closing) := by
    rcases Nat.le_total (statementEnd s.bytes offset) closing with hle | hle
    · rw [Nat.min_eq_left hle]
      exact hend.2
    · rw [Nat.min_eq_right hle]
      exact hclosing
  have hbehind := lt_min hend.1 hlt
  exact ⟨hopening, hbehind, delimits (Nat.le_of_lt hbehind) hstart hmin⟩

/-! ## Documentation comments -/

/-- A documentation comment that starts in front of a declaration in code ends in front of it. -/
theorem stop_le_start {doc : DocComment} (hdoc : doc ∈ docComments s.regions s.chars)
    {d : Declaration} (hd : d ∈ codeDeclarations s) (hle : doc.start ≤ d.start) :
    doc.stop ≤ d.start := by
  rw [s.regions_eq, s.bytes_eq] at hdoc
  obtain ⟨g, hg, hfound⟩ := docAt_iff.1 (docAt_of_mem_docComments hdoc)
  obtain ⟨hstart, -, hstop⟩ := bounds_of_found? hg hfound
  have hblock : g.region = .blockComment := by
    unfold Segment.found? at hfound
    split_ifs at hfound with hdoc hholds
    · exact hdoc.1.1
    · exact hholds.1
  by_contra hlt
  -- The declaration would start in the comment.
  have hregion := regionAt_of_blockComment hg ⟨Nat.le_trans hstart hle, by omega⟩ hblock
  have hcode := beq_iff_eq.1 (List.mem_filter.1 hd).2
  rw [SourceText.region, s.regions_eq, s.bytes_eq, hregion] at hcode
  exact nomatch hcode

/-! ## All of them -/

/-- An extraction cuts its text only where it can be cut. -/
theorem safelySliced (settings : Settings) (s : SourceText) : SafelySliced settings s := by
  have hrun := docRun_docComments s.regions s.chars
  have hdeclaration {d : Declaration} (hd : d ∈ codeDeclarations s) :=
    isBoundary_of_mem_declarations (List.mem_filter.1 hd).1
  refine
    { title := fun d hd =>
        ⟨start_lt_titleEnd_of_mem_declarations (List.mem_filter.1 hd).1, hdeclaration hd⟩
      body := fun l hl opening closing => body_bounds hl
      options := fun l hl hfits => ?_
      assertion := fun l hl opening closing hbody offset hoffset => ?_
      doc := fun d hd doc hdoc hle => ?_
      search := hrun
      cursor := fun cursor => isBoundary_of_reachesCursor
      floor := fun offset => ?_ }
  · obtain ⟨hle, hend⟩ := optionsEnd_bounds hl hfits
    exact ⟨hle, delimits hle (isBoundary_titleEnd hl) hend⟩
  · obtain ⟨-, -, -, -, hdelimits⟩ := body_bounds hl hbody
    exact assertion_bounds (Text.exists_slice?_iff.1 hdelimits).2.2 hoffset
  · have hstop := stop_le_start hdoc hd hle
    exact ⟨hstop, delimits hstop (hrun.isBoundary_stop (Text.isBoundary_zero s.chars) doc hdoc)
      (hdeclaration hd).1⟩
  · rw [SourceText.size, s.bytes_eq, Text.length_utf8]
    exact Text.descend?_eq s.chars offset

/-- The options of a call that is not closed end with its window. If that is in a character, they end in
front of the character. -/
theorem safelySliced_unclosed :
    let settings : Settings := ⟨⟨"TC".toList⟩, 3⟩
    let s : SourceText := .ofChars "test('TC-1: a', é".toList
    ∃ l ∈ located settings s, OptionsFit settings s l ∧ l.declaration.titleEnd = 14 ∧
      optionsEnd settings s l = 16 ∧ ¬ IsBoundary s.chars 17 ∧ s.Delimits 14 16 := by
  intro settings s
  have hlocated : located settings s =
      [⟨⟨0, 14, .test, none, "TC-1: a".toList⟩, some "TC-1".toList, none, none⟩] := by decide +kernel
  have hmem := hlocated ▸ List.mem_singleton_self _
  have hfits : OptionsFit settings s
      ⟨⟨0, 14, .test, none, "TC-1: a".toList⟩, some "TC-1".toList, none, none⟩ :=
    fun _ _ => by decide
  have hend : optionsEnd settings s
      ⟨⟨0, 14, .test, none, "TC-1: a".toList⟩, some "TC-1".toList, none, none⟩ = 16 := by
    decide +kernel
  have hslice := ((safelySliced settings s).options _ hmem hfits).2
  rw [hend] at hslice
  exact ⟨_, hmem, hfits, rfl, hend, by decide +kernel, hslice⟩

end ManifestSync.Scan
