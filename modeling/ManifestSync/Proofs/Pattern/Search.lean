import ManifestSync.Pattern.Search
import ManifestSync.Proofs.Pattern.Position

/-!
# Which matches a search finds

A search finds, from left to right, every match that no earlier match runs into. `mem_findAll_iff`
says so for each position of the text: the match there is among those found exactly if no match that
was found starts before the position and ends behind it.

The proof is an induction over the text behind the current position, for any `resume`: the matches
found start at or behind it (`of_mem_findFrom`), they follow each other (`pairwise_findFrom`), and
none is passed over without reason (`findFrom_complete`). The first match of a text is therefore the
one before which no position has a match (`find?_eq_some_of_first`).
-/

namespace ManifestSync

/-- A match runs over an offset: it starts before it and ends behind it. -/
def Match.Covers (m : Match) (offset : Nat) : Prop :=
  m.start.offset < offset ∧ offset < m.stop.offset

instance (m : Match) (offset : Nat) : Decidable (m.Covers offset) :=
  inferInstanceAs (Decidable (_ ∧ _))

namespace Pattern

variable (p : Pattern)

/-- A search goes on at the next character: unconditionally before `resume`, else behind the match
at the current position if there is one. -/
theorem findFrom_cons (behind : List Char) (offset resume : Nat) (ch : Char) (rest : List Char) :
    p.findFrom behind offset resume (ch :: rest) =
      if offset < resume then
        p.findFrom (ch :: behind) (offset + ch.utf8Size) resume rest
      else match p.matchAt? ⟨offset, behind, ch :: rest⟩ with
        | none => p.findFrom (ch :: behind) (offset + ch.utf8Size) resume rest
        | some m => m :: p.findFrom (ch :: behind) (offset + ch.utf8Size) m.stop.offset rest := rfl

/-- A match that a search finds is the pattern's match at a position that the search has reached,
which is not the end of the text and not before `resume`. -/
theorem of_mem_findFrom (behind : List Char) (offset resume : Nat) (rest : List Char) (m : Match)
    (hm : m ∈ p.findFrom behind offset resume rest) :
    (∃ w, (⟨offset, behind, rest⟩ : Cursor).Moves w m.start) ∧ p.matchAt? m.start = some m ∧
      m.start.rest ≠ [] ∧ resume ≤ m.start.offset := by
  induction rest generalizing behind offset resume with
  | nil => exact absurd hm List.not_mem_nil
  | cons ch rest ih =>
    -- What is found behind the first character is reached over it.
    have hnext : ∀ resume', resume ≤ resume' →
        m ∈ p.findFrom (ch :: behind) (offset + ch.utf8Size) resume' rest →
        (∃ w, (⟨offset, behind, ch :: rest⟩ : Cursor).Moves w m.start) ∧
          p.matchAt? m.start = some m ∧ m.start.rest ≠ [] ∧ resume ≤ m.start.offset := by
      intro resume' hle hm
      obtain ⟨⟨w, hw⟩, hat, hrest, hresume⟩ := ih _ _ _ hm
      exact ⟨⟨[ch] ++ w, (Cursor.moves_cons _ _ _ _).trans hw⟩, hat, hrest, Nat.le_trans hle hresume⟩
    rw [findFrom_cons] at hm
    split_ifs at hm with hlt
    · exact hnext resume (Nat.le_refl _) hm
    · cases hat : p.matchAt? ⟨offset, behind, ch :: rest⟩ with
      | none =>
        rw [hat] at hm
        exact hnext resume (Nat.le_refl _) hm
      | some m₀ =>
        rw [hat] at hm
        obtain ⟨hstart, w, hw, -⟩ := moves_of_matchAt? hat
        rcases List.mem_cons.1 hm with rfl | hm
        · rw [hstart]
          exact ⟨⟨[], .refl _⟩, hat, List.cons_ne_nil _ _, Nat.le_of_not_lt hlt⟩
        · refine hnext m₀.stop.offset ?_ hm
          have := hw.offset
          simp only at this
          omega

/-- The matches that a search finds follow each other without overlap. -/
theorem pairwise_findFrom (behind : List Char) (offset resume : Nat) (rest : List Char) :
    (p.findFrom behind offset resume rest).Pairwise fun m m' =>
      m.start.offset < m'.start.offset ∧ m.stop.offset ≤ m'.start.offset := by
  induction rest generalizing behind offset resume with
  | nil => exact .nil
  | cons ch rest ih =>
    rw [findFrom_cons]
    split_ifs with hlt
    · exact ih _ _ _
    · cases hat : p.matchAt? ⟨offset, behind, ch :: rest⟩ with
      | none => exact ih _ _ _
      | some m =>
        refine List.pairwise_cons.2 ⟨fun m' hm' => ?_, ih _ _ _⟩
        obtain ⟨⟨w, hw⟩, -, -, hresume⟩ := p.of_mem_findFrom _ _ _ _ m' hm'
        refine ⟨?_, hresume⟩
        have hstart := (moves_of_matchAt? hat).1
        have hoffset := hw.offset
        have hsize := ch.utf8Size_pos
        rw [hstart]
        simp only at hoffset ⊢
        omega

/-- A search passes over a match only if one that it finds runs over its start. -/
theorem findFrom_complete (behind : List Char) (offset resume : Nat) (rest : List Char)
    (d : Cursor) (w : List Char) (hw : (⟨offset, behind, rest⟩ : Cursor).Moves w d)
    (hrest : d.rest ≠ []) (hresume : resume ≤ d.offset) (m : Match) (hat : p.matchAt? d = some m) :
    m ∈ p.findFrom behind offset resume rest ∨
      ∃ m' ∈ p.findFrom behind offset resume rest, m'.Covers d.offset := by
  induction rest generalizing behind offset resume w with
  | nil =>
    have hnil := hw.rest
    exact absurd (List.append_eq_nil_iff.1 hnil.symm).2 hrest
  | cons ch rest ih =>
    cases w with
    | nil =>
      obtain rfl : d = ⟨offset, behind, ch :: rest⟩ := hw.eq_of_offset_eq hw.offset
      rw [findFrom_cons, if_neg (Nat.not_lt.2 hresume), hat]
      exact .inl List.mem_cons_self
    | cons ch' w =>
      obtain ⟨-, hw'⟩ := hw.of_cons
      have hoffset := hw'.offset
      have hsize := ch.utf8Size_pos
      simp only at hoffset
      rw [findFrom_cons]
      split_ifs with hlt
      · exact ih _ _ resume w hw' hresume
      · cases hat₀ : p.matchAt? ⟨offset, behind, ch :: rest⟩ with
        | none => exact ih _ _ resume w hw' hresume
        | some m₀ =>
          have hstart := (moves_of_matchAt? hat₀).1
          -- The match here either ends before `d`, and the search goes on, or runs over `d`.
          by_cases hstop : m₀.stop.offset ≤ d.offset
          · rcases ih _ _ m₀.stop.offset w hw' hstop with h | ⟨m', hm', hcovers⟩
            · exact .inl (List.mem_cons_of_mem _ h)
            · exact .inr ⟨m', List.mem_cons_of_mem _ hm', hcovers⟩
          · refine .inr ⟨m₀, List.mem_cons_self, ?_, Nat.lt_of_not_le hstop⟩
            rw [hstart]
            simp only
            omega

section
variable {p} {text : List Char}

/-- A match that is found in a text starts at a position of it and is the pattern's match there. -/
theorem of_mem_findAll {m : Match} (h : m ∈ p.findAll text) :
    m.start.IsIn text ∧ p.matchAt? m.start = some m := by
  obtain ⟨⟨w, hw⟩, hat, -, -⟩ := p.of_mem_findFrom [] 0 0 text m h
  exact ⟨hw.isIn (Cursor.isIn_start text), hat⟩

/-- A search finds at most one match at an offset. -/
theorem eq_of_mem_findAll {m m' : Match} (h : m ∈ p.findAll text) (h' : m' ∈ p.findAll text)
    (hoffset : m.start.offset = m'.start.offset) : m = m' := by
  obtain ⟨hin, hat⟩ := of_mem_findAll h
  obtain ⟨hin', hat'⟩ := of_mem_findAll h'
  rw [hin.eq_of_offset_eq hin' hoffset, hat'] at hat
  exact (Option.some.inj hat).symm

/-- No match that is found runs over the start of another one. -/
theorem not_covers_of_mem_findAll {m m' : Match} (h : m ∈ p.findAll text)
    (h' : m' ∈ p.findAll text) : ¬ m'.Covers m.start.offset := by
  rintro ⟨hstart, hstop⟩
  have hpair := p.pairwise_findFrom [] 0 0 text
  have hneq : m ≠ m' := by
    rintro rfl
    exact Nat.lt_irrefl _ hstart
  obtain ⟨i, hi, rfl⟩ := List.mem_iff_getElem.1 h
  obtain ⟨j, hj, rfl⟩ := List.mem_iff_getElem.1 h'
  rcases Nat.lt_trichotomy i j with hij | rfl | hij
  · have := (List.pairwise_iff_getElem.1 hpair i j hi hj hij).1
    unfold findAll at hstart
    omega
  · exact hneq rfl
  · have := (List.pairwise_iff_getElem.1 hpair j i hj hi hij).2
    unfold findAll at hstop
    omega

/-- The match at a position is found exactly if no match that is found runs over the position. -/
theorem mem_findAll_iff {c : Cursor} (hc : c.IsIn text) (hrest : c.rest ≠ []) {m : Match}
    (hat : p.matchAt? c = some m) :
    m ∈ p.findAll text ↔ ¬ ∃ m' ∈ p.findAll text, m'.Covers c.offset := by
  have hstart := (moves_of_matchAt? hat).1
  constructor
  · rintro hm ⟨m', hm', hcovers⟩
    rw [← hstart] at hcovers
    exact not_covers_of_mem_findAll hm hm' hcovers
  · intro hfree
    have := p.findFrom_complete [] 0 0 text c _ hc.moves_start hrest (Nat.zero_le _) m hat
    exact this.resolve_right hfree

/-! ## The first match -/

/-- The first match of a text is one before which no position has a match. -/
theorem find?_eq_some_of_first {c : Cursor} (hc : c.IsIn text) (hrest : c.rest ≠ []) {m : Match}
    (hat : p.matchAt? c = some m)
    (hfirst : ∀ d : Cursor, d.IsIn text → d.offset < c.offset → p.matchAt? d = none) :
    p.find? text = some m := by
  have hstart := (moves_of_matchAt? hat).1
  have hearlier : ∀ m' ∈ p.findAll text, ¬ m'.start.offset < c.offset := by
    intro m' hm' hlt
    obtain ⟨hin, hat'⟩ := of_mem_findAll hm'
    exact nomatch (hfirst _ hin hlt).symm.trans hat'
  have hm : m ∈ p.findAll text :=
    (mem_findAll_iff hc hrest hat).2 fun ⟨m', hm', hcovers⟩ => hearlier m' hm' hcovers.1
  unfold find?
  have hpair := p.pairwise_findFrom [] 0 0 text
  cases hall : p.findAll text with
  | nil => exact absurd hm (hall ▸ List.not_mem_nil)
  | cons m₀ found =>
    rw [hall] at hm hearlier
    rw [show p.findFrom [] 0 0 text = _ from hall] at hpair
    rcases List.mem_cons.1 hm with rfl | hm
    · rfl
    · -- The match found first would start before it.
      have hlt := (List.rel_of_pairwise_cons hpair hm).1
      rw [hstart] at hlt
      exact absurd hlt (hearlier m₀ List.mem_cons_self)

/-- Before the first match of a text no position has a match. -/
theorem matchAt?_eq_none_of_find? {m : Match} (h : p.find? text = some m) {d : Cursor}
    (hd : d.IsIn text) (hrest : d.rest ≠ []) (hlt : d.offset < m.start.offset) :
    p.matchAt? d = none := by
  obtain ⟨found, hfound⟩ := List.head?_eq_some_iff.1 h
  have hpair := p.pairwise_findFrom [] 0 0 text
  rw [show p.findFrom [] 0 0 text = m :: found from hfound] at hpair
  have hfirst : ∀ m' ∈ p.findAll text, m.start.offset ≤ m'.start.offset := by
    rw [hfound]
    rintro m' (_ | ⟨_, hm'⟩)
    · exact Nat.le_refl _
    · exact Nat.le_of_lt (List.rel_of_pairwise_cons hpair hm').1
  rw [Option.eq_none_iff_forall_ne_some]
  intro m' hm'
  have hstart := (moves_of_matchAt? hm').1
  -- The match there would be found, or one that is found would run over it.
  by_cases hcovered : ∃ m'' ∈ p.findAll text, m''.Covers d.offset
  · obtain ⟨m'', hm'', hcovers⟩ := hcovered
    exact absurd (hfirst m'' hm'') (Nat.not_le_of_lt (Nat.lt_trans hcovers.1 hlt))
  · have hmem := hfirst m' ((mem_findAll_iff hd hrest hm').2 hcovered)
    rw [hstart] at hmem
    exact absurd hmem (Nat.not_le_of_lt hlt)

/-- A match at the start of a text is its first match. -/
theorem find?_eq_some_of_start (htext : text ≠ []) {m : Match}
    (hat : p.matchAt? (.start text) = some m) : p.find? text = some m :=
  find?_eq_some_of_first (Cursor.isIn_start text) htext hat fun _ _ h => absurd h (Nat.not_lt_zero _)

/-- A text has no match exactly if no position of it, except for its end, has one. -/
theorem find?_eq_none_iff : p.find? text = none ↔
    ∀ c : Cursor, c.IsIn text → c.rest ≠ [] → p.matchAt? c = none := by
  unfold find?
  rw [List.head?_eq_none_iff]
  constructor
  · intro hnil c hc hrest
    cases hat : p.matchAt? c with
    | none => rfl
    | some m =>
      rcases p.findFrom_complete [] 0 0 text c _ hc.moves_start hrest (Nat.zero_le _) m hat with
        h | ⟨m', h, -⟩
      · exact absurd (hnil ▸ h : m ∈ []) List.not_mem_nil
      · exact absurd (hnil ▸ h : m' ∈ []) List.not_mem_nil
  · intro hnone
    refine List.eq_nil_iff_forall_not_mem.2 fun m hm => ?_
    obtain ⟨⟨w, hw⟩, hat, hrest, -⟩ := p.of_mem_findFrom [] 0 0 text m hm
    exact nomatch (hnone _ (hw.isIn (Cursor.isIn_start text)) hrest).symm.trans hat

end

end Pattern

end ManifestSync
