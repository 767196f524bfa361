import ManifestSync.Proofs.Source.Brackets
import ManifestSync.Proofs.Source.Resumption

/-!
# Where calls, bodies, statements and blocks end

The searches for these bounds go over the tokens of a walk (`searchFrom_eq`), and each of them has its
own rule for where it stops. What they share is that none passes over a parenthesis that closes more
than is open. Up to there the depth of a walk, which cannot fall below zero, is the number of open
parentheses (`depth_add_closed`), and so what a search finds at depth zero has balanced parentheses
before it (`WithinCall.balanced`) and lies within the call (`WithinCall.le_callEnd`).

A call and a block close where a pass over the brackets overruns (`callEnd_eq_firstOverrun`,
`blockEnd_eq_firstOverrun`); for the call, the depth of the walk is the number that the pass carries.
-/

namespace ManifestSync.Source

/-! ## Searches -/

/-- The result of a search over a list of tokens. -/
def searchTokens {σ : Type} (visit : σ → Token → Verdict σ) (state : σ) : List Token → Option Nat
  | [] => none
  | t :: ts =>
    match visit state t with
    | .found n => some n
    | .fail => none
    | .next state' => searchTokens visit state' ts

/-- A search along a walk goes over the tokens of the walk. -/
theorem Walk.search_eq {σ : Type} (visit : σ → Token → Verdict σ) (w : Walk) (offset : Nat)
    (state : σ) (bytes : List UInt8) :
    w.search visit offset state bytes = searchTokens visit state (w.tokens offset bytes) := by
  induction bytes generalizing w offset state with
  | nil => rfl
  | cons b rest ih =>
    rw [search, tokens_cons]
    cases hregion : (w.step b rest.head?).1 with
    | none =>
      simp only [hregion]
      exact ih _ _ _
    | some region =>
      simp only [hregion, Option.map_some, Option.toList_some, List.singleton_append, searchTokens]
      cases visit state ⟨offset, b, region, w.depth⟩ with
      | found n => rfl
      | fail => rfl
      | next state' => exact ih _ _ _

/-- A search from an offset goes over the tokens of the walk from there. -/
theorem searchFrom_eq {σ : Type} (visit : σ → Token → Verdict σ) (state : σ) (bytes : List UInt8)
    (start : Nat) :
    searchFrom visit state bytes start = searchTokens visit state (tokensFrom bytes start) :=
  Walk.search_eq visit Walk.start start state (bytes.drop start)

/-- What a search finds, it finds at a token, and it passes over the tokens before that one. -/
theorem exists_of_searchTokens {σ : Type} {visit : σ → Token → Verdict σ} {state : σ}
    {ts : List Token} (hts : ts.Pairwise (·.offset < ·.offset)) {e : Nat}
    (h : searchTokens visit state ts = some e) :
    ∃ t ∈ ts, (∃ s, visit s t = .found e) ∧
      ∀ u ∈ ts, u.offset < t.offset → ∃ s s', visit s u = .next s' := by
  induction ts generalizing state with
  | nil => exact nomatch h
  | cons t ts ih =>
    obtain ⟨hlt, hrest⟩ := List.pairwise_cons.1 hts
    rw [searchTokens] at h
    cases hvisit : visit state t with
    | found n =>
      rw [hvisit] at h
      refine ⟨t, List.mem_cons_self, ⟨state, hvisit.trans (congrArg _ (Option.some.inj h))⟩, ?_⟩
      intro u hu hbefore
      rcases List.mem_cons.1 hu with rfl | hu
      · omega
      · have := hlt u hu
        omega
    | fail =>
      rw [hvisit] at h
      exact nomatch h
    | next state' =>
      rw [hvisit] at h
      obtain ⟨v, hv, hfound, hwithin⟩ := ih hrest h
      refine ⟨v, List.mem_cons_of_mem _ hv, hfound, fun u hu hbefore => ?_⟩
      rcases List.mem_cons.1 hu with rfl | hu
      · exact ⟨state, state', hvisit⟩
      · exact hwithin u hu hbefore

/-! ## Depth and parentheses -/

variable {bytes : List UInt8} {start : Nat} {ts : List Token} {t : Token}

/-- A token closes a parenthesis when none is open: the call that the walk starts in ends there. -/
def Token.EndsCall (t : Token) : Prop :=
  t.isCode closeParen ∧ t.depth = 0

/-- The call that a walk starts in does not end before an offset. -/
def WithinCall (ts : List Token) (i : Nat) : Prop :=
  ∀ u ∈ ts, u.offset < i → ¬ u.EndsCall

/-- A search does not go on behind the end of the call. -/
def StopsAtCallEnd {σ : Type} (visit : σ → Token → Verdict σ) : Prop :=
  ∀ s s' t, visit s t = .next s' → ¬ t.EndsCall

/-- Within the call, the depth of a token is the number of parentheses opened before it and not closed:
the depth has nowhere been held at zero. -/
theorem depth_add_closed {n : Nat} (hts : ts.Pairwise (·.offset < ·.offset))
    (hdepths : DepthsFrom n ts) (ht : t ∈ ts) (hwithin : WithinCall ts t.offset) :
    t.depth + countBefore Brackets.parens.closes ts t.offset =
      countBefore Brackets.parens.opens ts t.offset + n := by
  induction ts generalizing n with
  | nil => exact absurd ht List.not_mem_nil
  | cons u ts ih =>
    obtain ⟨hlt, hrest⟩ := List.pairwise_cons.1 hts
    obtain ⟨hfirst, hdepths⟩ := hdepths
    rw [countBefore_cons, countBefore_cons]
    rcases List.mem_cons.1 ht with rfl | ht
    · have hle : ∀ u ∈ ts, t.offset ≤ u.offset := fun u hu => Nat.le_of_lt (hlt u hu)
      simp [countBefore_eq_zero _ hle, hfirst]
    · have hu := hlt t ht
      have hopen := hwithin u List.mem_cons_self hu
      have hbehind := ih hrest hdepths ht fun v hv => hwithin v (List.mem_cons_of_mem _ hv)
      have happart := Brackets.parens.apart u
      simp only [Brackets.parens] at happart hbehind ⊢
      unfold Token.depthBehind at hbehind
      split_ifs at hbehind with hopens hcloses
      · simp [hopens, happart hopens, hu]
        omega
      · -- The call does not end here, so the depth really falls by one.
        have hpos : u.depth ≠ 0 := fun hzero => hopen ⟨hcloses, hzero⟩
        simp [hopens, hcloses, hu]
        omega
      · simp [hopens, hcloses]
        omega

/-- A pass over the parentheses carries the depth of the tokens, so the search for the end of a call,
which looks at that depth, is such a pass. -/
theorem searchTokens_closingParen {n : Nat} (hdepths : DepthsFrom n ts) :
    searchTokens closingParen () ts = Brackets.parens.firstOverrun n ts := by
  induction ts generalizing n with
  | nil => rfl
  | cons t ts ih =>
    obtain ⟨rfl, hdepths⟩ := hdepths
    have hbehind : t.depthBehind = Brackets.parens.behind t.depth t := rfl
    rw [hbehind] at hdepths
    rw [searchTokens, Brackets.firstOverrun, ← ih hdepths, closingParen]
    by_cases hstop : t.isCode closeParen ∧ t.depth = 0
    · rw [if_pos (by simpa using hstop)]
      exact (if_pos hstop).symm
    · rw [if_neg (by simpa using hstop)]
      exact (if_neg hstop).symm

/-- A call closes where a pass over the parentheses behind its start overruns. -/
theorem callEnd_eq_firstOverrun (bytes : List UInt8) (start : Nat) :
    callEnd bytes start = Brackets.parens.firstOverrun 0 (tokensFrom bytes start) := by
  rw [callEnd, searchFrom_eq]
  exact searchTokens_closingParen (Walk.depthsFrom_tokens Walk.start start _)

/-- What lies within the call lies before the end that the search finds. -/
theorem WithinCall.le_callEnd {i e : Nat} (hwithin : WithinCall (tokensFrom bytes start) i)
    (h : callEnd bytes start = some e) : i ≤ e := by
  rw [callEnd, searchFrom_eq] at h
  obtain ⟨t, ht, ⟨_, hfound⟩, -⟩ := exists_of_searchTokens (pairwise_tokensFrom bytes start) h
  unfold closingParen at hfound
  split_ifs at hfound with hstop
  obtain rfl : t.offset = e := by injection hfound
  rw [Bool.and_eq_true, beq_iff_eq] at hstop
  by_contra hlt
  exact hwithin t ht (Nat.lt_of_not_le hlt) hstop

/-- The parentheses before a token at depth zero are balanced, if the call has not ended before it. -/
theorem WithinCall.balanced (hwithin : WithinCall (tokensFrom bytes start) t.offset)
    (ht : t ∈ tokensFrom bytes start) (hdepth : t.depth = 0) :
    Brackets.parens.Balanced (tokensFrom bytes start) t.offset := by
  have hts := pairwise_tokensFrom bytes start
  refine ⟨fun j hj => ?_, ?_⟩
  · cases j with
    | zero =>
      rw [countBefore_eq_zero _ fun _ _ => Nat.zero_le _]
      exact Nat.zero_le _
    | succ i =>
      -- The first offset at which they overrun would be the end of the call.
      by_contra hover
      obtain ⟨e, he, hfirst⟩ := Brackets.Overrun.exists_firstOverrun hts (Nat.lt_of_not_le hover)
      rw [← callEnd_eq_firstOverrun] at hfirst
      have := hwithin.le_callEnd hfirst
      omega
  · have hcount := depth_add_closed hts (Walk.depthsFrom_tokens Walk.start start _) ht hwithin
    rwa [hdepth, Nat.zero_add] at hcount

/-- The call does not end at a brace either. -/
theorem WithinCall.succ_of_openBrace (hwithin : WithinCall (tokensFrom bytes start) t.offset)
    (ht : t ∈ tokensFrom bytes start) (hbrace : t.isCode openBrace) :
    WithinCall (tokensFrom bytes start) (t.offset + 1) := by
  intro u hu hlt hends
  rcases Nat.lt_succ_iff_lt_or_eq.1 hlt with hlt | hsame
  · exact hwithin u hu hlt hends
  · obtain rfl := eq_of_offset_eq hu ht hsame
    have hcloses := hends.1
    unfold Token.isCode at hbrace hcloses
    grind [openBrace, closeParen]

/-! ## Bodies and statements -/

/-- A search that does not go on behind the end of the call finds a token up to which the call has not
ended. -/
theorem exists_withinCall {σ : Type} {visit : σ → Token → Verdict σ} {state : σ} {e : Nat}
    (hvisit : StopsAtCallEnd visit)
    (h : searchFrom visit state bytes start = some e) : ∃ t ∈ tokensFrom bytes start,
      (∃ s, visit s t = .found e) ∧ WithinCall (tokensFrom bytes start) t.offset := by
  rw [searchFrom_eq] at h
  obtain ⟨t, ht, hfound, hbefore⟩ := exists_of_searchTokens (pairwise_tokensFrom bytes start) h
  refine ⟨t, ht, hfound, fun u hu hlt => ?_⟩
  obtain ⟨s, s', hnext⟩ := hbefore u hu hlt
  exact hvisit s s' u hnext

/-- A body opens at a brace in code at depth zero. -/
theorem bodyBrace_eq_found {trail : Trail} {e : Nat} (h : bodyBrace trail t = .found e) :
    t.offset = e ∧ t.isCode openBrace ∧ t.depth = 0 := by
  unfold bodyBrace at h
  unfold Token.isCode
  cases hregion : t.region <;> grind [Region.isComment, Region.isString]

/-- The search for a body does not go on behind the end of the call. -/
theorem stopsAtCallEnd_bodyBrace : StopsAtCallEnd bodyBrace := by
  intro trail trail' t h
  unfold bodyBrace at h
  unfold Token.EndsCall Token.isCode
  cases hregion : t.region <;> grind [Region.isComment, Region.isString]

/-- A statement ends at a byte of code at depth zero. -/
theorem statementStop_eq_found {e : Nat} (h : statementStop bytes () t = .found e) :
    t.offset = e ∧ t.region = .code ∧ t.depth = 0 := by
  unfold statementStop at h
  grind

/-- The search for the end of a statement does not go on behind the end of the call. -/
theorem stopsAtCallEnd_statementStop (bytes : List UInt8) :
    StopsAtCallEnd (statementStop bytes) := by
  intro _ _ t h
  unfold statementStop at h
  unfold Token.EndsCall Token.isCode
  grind

/-- What bounds a call whose arguments start at an offset, and a statement that starts there. -/
structure CallBounds (bytes : List UInt8) (start : Nat) : Prop where
  /-- The call ends at the least offset at which more parentheses are closed than opened. -/
  callEnd_eq_some : ∀ e, callEnd bytes start = some e ↔
    IsLeast {i | Brackets.parens.Overrun (tokensFrom bytes start) i} e
  /-- It has no end if there is no such offset. -/
  callEnd_eq_none : callEnd bytes start = none ↔
    ∀ i, ¬ Brackets.parens.Overrun (tokensFrom bytes start) i
  /-- Its body opens at a brace in code, behind balanced parentheses and within the call. -/
  body : ∀ b, bodyOpen bytes start = some b →
    (∃ t ∈ tokensFrom bytes start, t.offset = b ∧ t.isCode openBrace) ∧
      Brackets.parens.Balanced (tokensFrom bytes start) b ∧
      ∀ e, callEnd bytes start = some e → b < e
  /-- A statement that ends before the text does ends behind balanced parentheses, and not behind the
  end of the call. -/
  statement : statementEnd bytes start < bytes.length →
    Brackets.parens.Balanced (tokensFrom bytes start) (statementEnd bytes start) ∧
      ∀ e, callEnd bytes start = some e → statementEnd bytes start ≤ e

/-- The bounds of a call and of a statement are those of its parentheses. -/
theorem callBounds (bytes : List UInt8) (start : Nat) : CallBounds bytes start := by
  have hts := pairwise_tokensFrom bytes start
  refine ⟨fun e => ?_, ?_, fun b hb => ?_, fun hlt => ?_⟩
  · rw [callEnd_eq_firstOverrun]
    exact Brackets.firstOverrun_eq_some_iff hts
  · rw [callEnd_eq_firstOverrun]
    exact Brackets.firstOverrun_eq_none_iff hts
  · obtain ⟨t, ht, ⟨_, hfound⟩, hwithin⟩ := exists_withinCall stopsAtCallEnd_bodyBrace hb
    obtain ⟨rfl, hbrace, hdepth⟩ := bodyBrace_eq_found hfound
    refine ⟨⟨t, ht, rfl, hbrace⟩, hwithin.balanced ht hdepth, fun e he => ?_⟩
    exact (hwithin.succ_of_openBrace ht hbrace).le_callEnd he
  · cases hend : searchFrom (statementStop bytes) () bytes start with
    | none =>
      rw [statementEnd, hend, Option.getD_none] at hlt
      exact absurd hlt (Nat.lt_irrefl _)
    | some e =>
      obtain ⟨t, ht, ⟨_, hfound⟩, hwithin⟩ :=
        exists_withinCall (stopsAtCallEnd_statementStop bytes) hend
      obtain ⟨rfl, -, hdepth⟩ := statementStop_eq_found hfound
      rw [statementEnd, hend, Option.getD_some]
      exact ⟨hwithin.balanced ht hdepth, fun e he => hwithin.le_callEnd he⟩

/-- The parenthesis in the title and the one in the comment do not close the call. -/
example : let bytes := Text.utf8 "'a)', f(b) /* ) */, () => { })".toList
    callEnd bytes 0 = some 29 ∧ bodyOpen bytes 0 = some 26 := by
  decide +kernel

/-! ## Blocks -/

/-- A brace is counted as a pass over the braces counts it. -/
theorem closingBrace_succ (n : Nat) (t : Token) : closingBrace (n + 1) t =
    if Brackets.braces.closes t ∧ n = 0 then .found t.offset
    else .next (Brackets.braces.behind n t + 1) := by
  unfold closingBrace Brackets.behind Brackets.braces Token.isCode
  grind [openBrace, closeBrace]

/-- The search for the end of a block is a pass over the braces behind the one that opens it. -/
theorem searchTokens_closingBrace (n : Nat) (ts : List Token) :
    searchTokens closingBrace (n + 1) ts = Brackets.braces.firstOverrun n ts := by
  induction ts generalizing n with
  | nil => rfl
  | cons t ts ih =>
    rw [searchTokens, Brackets.firstOverrun, closingBrace_succ, ← ih]
    split_ifs <;> rfl

/-- A block closes where a pass over the braces behind its opening overruns. -/
theorem blockEnd_eq_firstOverrun (bytes : List UInt8) (opening : Nat) :
    blockEnd bytes opening = Brackets.braces.firstOverrun 0 (tokensFrom bytes (opening + 1)) := by
  rw [blockEnd, searchFrom_eq]
  exact searchTokens_closingBrace 0 _

/-- Brackets overrun at no offset before the walk over them starts. -/
theorem Brackets.Overrun.le {k : Brackets} {i : Nat} (h : k.Overrun (tokensFrom bytes start) i) :
    start ≤ i := by
  by_contra hlt
  have hzero : countBefore k.closes (tokensFrom bytes start) (i + 1) = 0 := by
    refine countBefore_eq_zero _ fun t ht => ?_
    have hstart : start ≤ t.offset := (Walk.getElem?_of_mem_tokens ht).1
    omega
  rw [Overrun, hzero] at h
  exact absurd h (Nat.not_lt_zero _)

/-- A brace that opens a block stands in code, and there is no open parenthesis behind it. -/
theorem region_and_depthBehind_of_opens (h : Brackets.braces.opens t) :
    t.region = .code ∧ t.depthBehind = 0 := by
  unfold Brackets.braces Token.isCode at h
  unfold Token.depthBehind Token.isCode
  grind [openBrace, openParen, closeParen]

/-- What closes a block, and the blocks within it. -/
structure BlockMatched (bytes : List UInt8) (opening : Nat) : Prop where
  /-- The block closes at the least offset behind its opening at which more braces are closed than
  opened. -/
  blockEnd_eq_some : ∀ c, blockEnd bytes opening = some c ↔
    IsLeast {i | opening < i ∧ Brackets.braces.Overrun (tokensFrom bytes (opening + 1)) i} c
  /-- It is not closed if there is no such offset. -/
  blockEnd_eq_none : blockEnd bytes opening = none ↔
    ∀ i, opening < i → ¬ Brackets.braces.Overrun (tokensFrom bytes (opening + 1)) i
  /-- A block that opens within it closes within it. -/
  nested : ∀ c, blockEnd bytes opening = some c → ∀ t ∈ tokensFrom bytes (opening + 1),
    Brackets.braces.opens t → t.offset < c →
    ∃ c', blockEnd bytes t.offset = some c' ∧ t.offset < c' ∧ c' < c

/-- The end of a block is that of its braces, and blocks nest. -/
theorem blockMatched (bytes : List UInt8) (opening : Nat) : BlockMatched bytes opening := by
  have hts := pairwise_tokensFrom bytes (opening + 1)
  have hbehind : ∀ i, Brackets.braces.Overrun (tokensFrom bytes (opening + 1)) i → opening < i :=
    fun i hi => hi.le
  have hset : {i | opening < i ∧ Brackets.braces.Overrun (tokensFrom bytes (opening + 1)) i} =
      {i | Brackets.braces.Overrun (tokensFrom bytes (opening + 1)) i} :=
    Set.ext fun i => ⟨And.right, fun hi => ⟨hbehind i hi, hi⟩⟩
  refine ⟨fun c => ?_, ?_, fun c hc t ht hopens hlt => ?_⟩
  · rw [hset, blockEnd_eq_firstOverrun]
    exact Brackets.firstOverrun_eq_some_iff hts
  · rw [blockEnd_eq_firstOverrun, Brackets.firstOverrun_eq_none_iff hts]
    exact ⟨fun h i _ => h i, fun h i hi => h i (hbehind i hi) hi⟩
  · -- Behind the inner opening the two walks are the same, as it stands in code at depth zero.
    obtain ⟨hcode, hdepth⟩ := region_and_depthBehind_of_opens hopens
    rw [blockEnd_eq_firstOverrun] at hc ⊢
    rw [tokensFrom_behind ht hcode hdepth]
    obtain ⟨c', hc', hinner⟩ := Brackets.exists_firstOverrun_of_opens hts hc ht hopens hlt
    obtain ⟨u, hu, rfl⟩ := Brackets.exists_of_firstOverrun hinner
    have hbefore := (List.mem_filter.1 hu).2
    exact ⟨u.offset, hinner, of_decide_eq_true hbefore, hc'⟩

/-- The braces of a function in parentheses are not counted. -/
example : let bytes := Text.utf8 "{ f(({ a }) => { b }) { } }".toList
    blockEnd bytes 0 = some 26 ∧ blockEnd bytes 22 = some 24 := by
  decide +kernel

end ManifestSync.Source
