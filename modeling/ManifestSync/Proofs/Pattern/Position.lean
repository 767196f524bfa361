import Mathlib.Data.Bool.Basic
import Mathlib.Tactic.SplitIfs
import ManifestSync.Pattern.Basic
import ManifestSync.Proofs.Text.Bytes

/-!
# Where a match can end

A match only moves forward: it ends behind some characters, which are the beginning of the text at
its start (`Cursor.Moves`). `ends_spec` says this of every pattern, and with it that each of these
characters is one for which the pattern has a class (`Pattern.reads`) and that the groups kept so
far stay behind those of the pattern. It is one induction over the pattern; repetition is covered by
`mem_repeated`, by which every property of a step that is closed under composition holds of any
number of steps.

A position of a text (`Cursor.IsIn`) is determined by its offset, and moving stays in the text.
-/

namespace ManifestSync

/-! ## Moving over characters -/

/-- The second position is the first one moved over some characters. -/
structure Cursor.Moves (c : Cursor) (w : List Char) (d : Cursor) : Prop where
  behind : d.behind = w.reverse ++ c.behind
  rest : c.rest = w ++ d.rest
  offset : d.offset = c.offset + Text.byteLength w

namespace Cursor

/-- Every position is itself moved over nothing. -/
theorem Moves.refl (c : Cursor) : c.Moves [] c := ⟨rfl, rfl, rfl⟩

/-- Two moves, one behind the other, are a move. -/
theorem Moves.trans {c d e : Cursor} {v w : List Char} (h : c.Moves v d) (h' : d.Moves w e) :
    c.Moves (v ++ w) e where
  behind := by rw [h'.behind, h.behind, List.reverse_append, List.append_assoc]
  rest := by rw [h.rest, h'.rest, List.append_assoc]
  offset := by rw [h'.offset, h.offset, Text.byteLength_append, Nat.add_assoc]

/-- The move over one character. -/
theorem moves_cons (offset : Nat) (behind : List Char) (ch : Char) (rest : List Char) :
    Moves ⟨offset, behind, ch :: rest⟩ [ch] ⟨offset + ch.utf8Size, ch :: behind, rest⟩ :=
  ⟨rfl, rfl, rfl⟩

/-- A move over some characters starts with the move over the first of them. -/
theorem Moves.of_cons {offset : Nat} {behind rest : List Char} {ch ch' : Char} {w : List Char}
    {d : Cursor} (h : Moves ⟨offset, behind, ch :: rest⟩ (ch' :: w) d) :
    ch' = ch ∧ Moves ⟨offset + ch.utf8Size, ch :: behind, rest⟩ w d := by
  obtain ⟨hbehind, hrest, hoffset⟩ := h
  obtain ⟨rfl, rfl⟩ := List.cons.inj hrest
  refine ⟨rfl, ?_, rfl, ?_⟩
  · rw [hbehind, List.reverse_cons, List.append_assoc]
    rfl
  · rw [hoffset, Text.byteLength, Nat.add_assoc]

/-- A move that does not change the offset goes nowhere. -/
theorem Moves.eq_of_offset_eq {c d : Cursor} {w : List Char} (h : c.Moves w d)
    (hoffset : d.offset = c.offset) : d = c := by
  have hw : w = [] := by
    apply Text.eq_nil_of_byteLength_eq_zero
    have := h.offset
    omega
  subst hw
  obtain ⟨hbehind, hrest, -⟩ := h
  obtain ⟨_, _, _⟩ := d
  obtain ⟨_, _, _⟩ := c
  simp only [List.reverse_nil, List.nil_append] at hbehind hrest hoffset
  rw [hbehind, hrest, hoffset]

/-- A move over given characters has one end. -/
theorem Moves.right_unique {c d d' : Cursor} {w : List Char} (h : c.Moves w d)
    (h' : c.Moves w d') : d = d' := by
  have hrest : d.rest = d'.rest := List.append_cancel_left (h.rest.symm.trans h'.rest)
  have hbehind : d.behind = d'.behind := h.behind.trans h'.behind.symm
  have hoffset : d.offset = d'.offset := h.offset.trans h'.offset.symm
  obtain ⟨_, _, _⟩ := d
  obtain ⟨_, _, _⟩ := d'
  simp only at hrest hbehind hoffset
  rw [hrest, hbehind, hoffset]

/-- A move over two texts, one behind the other, comes past the position between them. -/
theorem Moves.exists_of_append {c d : Cursor} {u v : List Char} (h : c.Moves (u ++ v) d) :
    ∃ e, c.Moves u e ∧ e.Moves v d := by
  refine ⟨⟨c.offset + Text.byteLength u, u.reverse ++ c.behind, v ++ d.rest⟩, ⟨rfl, ?_, rfl⟩,
    ⟨?_, rfl, ?_⟩⟩
  · rw [h.rest, List.append_assoc]
  · rw [h.behind, List.reverse_append, List.append_assoc]
  · rw [h.offset, Text.byteLength_append, Nat.add_assoc]

/-- A move over something goes forward. -/
theorem Moves.offset_lt {c d : Cursor} {w : List Char} (h : c.Moves w d) (hw : w ≠ []) :
    c.offset < d.offset := by
  have hoffset := h.offset
  have hpos : Text.byteLength w ≠ 0 := fun h => hw (Text.eq_nil_of_byteLength_eq_zero h)
  omega

/-- The text between two positions is what was moved over. -/
theorem Moves.textTo {c d : Cursor} {w : List Char} (h : c.Moves w d) : c.textTo d = w := by
  unfold Cursor.textTo
  have hlen : d.offset - c.offset = Text.byteLength w := by
    have := h.offset
    omega
  rw [hlen, h.rest, Text.takeBytes_byteLength]

/-- A position of a text. -/
structure IsIn (text : List Char) (c : Cursor) : Prop where
  /-- What is before and what is behind the position make up the text. -/
  text_eq : c.behind.reverse ++ c.rest = text
  /-- The offset counts the bytes before the position. -/
  offset_eq : c.offset = Text.byteLength c.behind

instance (text : List Char) (c : Cursor) : Decidable (c.IsIn text) :=
  decidable_of_iff (c.behind.reverse ++ c.rest = text ∧ c.offset = Text.byteLength c.behind)
    ⟨fun h => ⟨h.1, h.2⟩, fun h => ⟨h.1, h.2⟩⟩

/-- The start of a text is a position of it. -/
theorem isIn_start (text : List Char) : (start text).IsIn text := ⟨rfl, rfl⟩

/-- Moving stays in the text. -/
theorem Moves.isIn {text : List Char} {c d : Cursor} {w : List Char} (h : c.Moves w d)
    (hc : c.IsIn text) : d.IsIn text where
  text_eq := by
    rw [h.behind, List.reverse_append, List.reverse_reverse, List.append_assoc, ← h.rest,
      hc.text_eq]
  offset_eq := by
    rw [h.behind, h.offset, hc.offset_eq, Text.byteLength_append, Text.byteLength_reverse,
      Nat.add_comm]

/-- A move cuts the text in three: what is before it, what it goes over and what is behind it. -/
theorem Moves.text_eq {text : List Char} {c d : Cursor} {w : List Char} (h : c.Moves w d)
    (hc : c.IsIn text) : text = c.behind.reverse ++ (w ++ d.rest) := by
  rw [← hc.text_eq, h.rest]

/-- A move ends behind the bytes before it and those that it goes over. -/
theorem Moves.offset_eq {text : List Char} {c d : Cursor} {w : List Char} (h : c.Moves w d)
    (hc : c.IsIn text) :
    d.offset = Text.byteLength c.behind.reverse + Text.byteLength w := by
  rw [h.offset, hc.offset_eq, Text.byteLength_reverse]

/-- A position of a text is not behind its last byte. -/
theorem IsIn.offset_le {text : List Char} {c : Cursor} (h : c.IsIn text) :
    c.offset ≤ Text.byteLength text := by
  rw [h.offset_eq, ← h.text_eq, Text.byteLength_append, Text.byteLength_reverse]
  exact Nat.le_add_right _ _

/-- Every position of a text is reached from its start. -/
theorem IsIn.moves_start {text : List Char} {c : Cursor} (h : c.IsIn text) :
    (start text).Moves c.behind.reverse c where
  behind := by simp [start]
  rest := h.text_eq.symm
  offset := by simp [start, h.offset_eq]

/-- A text has at most one position with an offset. -/
theorem IsIn.eq_of_offset_eq {text : List Char} {c d : Cursor} (hc : c.IsIn text)
    (hd : d.IsIn text) (h : c.offset = d.offset) : c = d := by
  have hsplit := Text.append_inj_of_byteLength (hc.text_eq.trans hd.text_eq.symm) (by
    rw [Text.byteLength_reverse, Text.byteLength_reverse, ← hc.offset_eq, ← hd.offset_eq, h])
  obtain ⟨_, _, _⟩ := c
  obtain ⟨_, _, _⟩ := d
  obtain ⟨hbehind, hrest⟩ := hsplit
  simp only at h hrest hbehind
  rw [h, hrest, List.reverse_inj.1 hbehind]

/-- All positions of a text. -/
def positions (text : List Char) : List Cursor :=
  (List.range (text.length + 1)).map fun n =>
    ⟨Text.byteLength (text.take n), (text.take n).reverse, text.drop n⟩

/-- Every position of a text is listed. -/
theorem IsIn.mem_positions {text : List Char} {c : Cursor} (h : c.IsIn text) :
    c ∈ positions text := by
  obtain ⟨offset, behind, rest⟩ := c
  obtain ⟨rfl, hoffset⟩ := h
  refine List.mem_map.2 ⟨behind.length, List.mem_range.2 ?_, ?_⟩
  · rw [List.length_append, List.length_reverse]
    exact Nat.lt_succ_of_le (Nat.le_add_right _ _)
  · rw [← List.length_reverse, List.take_left, List.drop_left, List.reverse_reverse,
      Text.byteLength_reverse, ← show offset = _ from hoffset]

/-- A position in the first part of a text is one of that part. -/
theorem IsIn.exists_of_append {t z : List Char} {c : Cursor} (hc : c.IsIn (t ++ z))
    (h : c.offset ≤ Text.byteLength t) :
    ∃ u, c.rest = u ++ z ∧ IsIn t ⟨c.offset, c.behind, u⟩ := by
  rcases List.append_eq_append_iff.1 hc.text_eq with ⟨u, ht, hrest⟩ | ⟨u, hbehind, hrest⟩
  · exact ⟨u, hrest, ht.symm, hc.offset_eq⟩
  · have hoffset := hc.offset_eq
    rw [← Text.byteLength_reverse, hbehind, Text.byteLength_append] at hoffset
    obtain rfl : u = [] := Text.eq_nil_of_byteLength_eq_zero (by omega)
    rw [List.append_nil] at hbehind
    refine ⟨[], hrest.symm, ?_, hc.offset_eq⟩
    rw [List.append_nil, hbehind]

/-- A position on the way of a move divides it in two. -/
theorem Moves.exists_split {text : List Char} {a b c : Cursor} {w : List Char} (h : a.Moves w c)
    (ha : a.IsIn text) (hb : b.IsIn text) (hab : a.offset ≤ b.offset) (hbc : b.offset ≤ c.offset) :
    ∃ u v, w = u ++ v ∧ a.Moves u b ∧ b.Moves v c := by
  have hc := h.isIn ha
  -- Both positions cut the text, and the cut with fewer bytes is a beginning of the other.
  have hcut : ∀ {d e : Cursor}, d.IsIn text → e.IsIn text → d.offset ≤ e.offset →
      ∃ u, d.Moves u e := by
    intro d e hd he hle
    rcases List.append_eq_append_iff.1 (hd.text_eq.trans he.text_eq.symm) with
      ⟨u, hbehind, hrest⟩ | ⟨u, hbehind, hrest⟩
    · refine ⟨u, ?_, hrest, ?_⟩
      · rw [← List.reverse_reverse e.behind, hbehind, List.reverse_append, List.reverse_reverse]
      · rw [hd.offset_eq, he.offset_eq, ← Text.byteLength_reverse e.behind, hbehind,
          Text.byteLength_append, Text.byteLength_reverse]
    · have hlen : d.offset = e.offset + Text.byteLength u := by
        rw [hd.offset_eq, he.offset_eq, ← Text.byteLength_reverse d.behind, hbehind,
          Text.byteLength_append, Text.byteLength_reverse]
      have heq : d = e := hd.eq_of_offset_eq he (by omega)
      exact ⟨[], heq ▸ .refl d⟩
  obtain ⟨u, hu⟩ := hcut ha hb hab
  obtain ⟨v, hv⟩ := hcut hb hc hbc
  have hrest : w ++ c.rest = u ++ v ++ c.rest := by rw [← h.rest, (hu.trans hv).rest]
  exact ⟨u, v, List.append_cancel_right hrest, hu, hv⟩

end Cursor

/-! ## What a pattern reads -/

namespace Pattern

/-- Whether a pattern has a class for a character. -/
def reads : Pattern → Char → Bool
  | .one p, ch => p ch
  | .seq a b, ch => a.reads ch || b.reads ch
  | .alt a b, ch => a.reads ch || b.reads ch
  | .many a, ch => a.reads ch
  | .group _ a, ch => a.reads ch
  | _, _ => false

/-- Whether a pattern has a group with a number. -/
def hasGroup : Pattern → Nat → Bool
  | .seq a b, n => a.hasGroup n || b.hasGroup n
  | .alt a b, n => a.hasGroup n || b.hasGroup n
  | .many a, n => a.hasGroup n
  | .group m a, n => n == m || a.hasGroup n
  | _, _ => false

/-- Whether a pattern matches no empty text, as can be seen from its form. -/
def consumes : Pattern → Bool
  | .one _ => true
  | .seq a b => a.consumes || b.consumes
  | .alt a b => a.consumes && b.consumes
  | .group _ a => a.consumes
  | _ => false

/-- What the end of a match has in common with its start: it is reached over characters that satisfy
`P`, and only groups whose numbers satisfy `Q` have come on top of those kept before. -/
def Extends (P : Char → Prop) (Q : Nat → Prop) (r t : Reached) : Prop :=
  ∃ w gs, r.cursor.Moves w t.cursor ∧ (∀ ch ∈ w, P ch) ∧ t.groups = gs ++ r.groups ∧
    ∀ g ∈ gs, Q g.1

variable {P P' : Char → Prop} {Q Q' : Nat → Prop}

/-- Everything extends itself. -/
theorem Extends.refl (r : Reached) : Extends P Q r r :=
  ⟨[], [], .refl _, List.forall_mem_nil _, rfl, List.forall_mem_nil _⟩

/-- Extension is transitive. -/
theorem Extends.trans {r s t : Reached} (h : Extends P Q r s) (h' : Extends P Q s t) :
    Extends P Q r t := by
  obtain ⟨w, gs, hw, hP, hgs, hQ⟩ := h
  obtain ⟨w', gs', hw', hP', hgs', hQ'⟩ := h'
  refine ⟨w ++ w', gs' ++ gs, hw.trans hw', ?_, ?_, ?_⟩
  · intro ch hch
    exact (List.mem_append.1 hch).elim (hP ch) (hP' ch)
  · rw [hgs', hgs, List.append_assoc]
  · intro g hg
    exact (List.mem_append.1 hg).elim (hQ' g) (hQ g)

/-- Extension under weaker conditions. -/
theorem Extends.mono {r t : Reached} (h : Extends P Q r t) (hP : ∀ ch, P ch → P' ch)
    (hQ : ∀ n, Q n → Q' n) : Extends P' Q' r t := by
  obtain ⟨w, gs, hw, hPw, hgs, hQg⟩ := h
  exact ⟨w, gs, hw, fun ch hch => hP ch (hPw ch hch), hgs, fun g hg => hQ _ (hQg g hg)⟩

/-- What holds of every step and is reflexive and transitive holds of repetitions of the step, if it
holds of the positions that follow them. -/
theorem mem_repeated {R : Reached → Reached → Prop} {step : Reached → List Reached}
    (hrefl : ∀ r, R r r) (htrans : ∀ {r s t}, R r s → R s t → R r t)
    (hstep : ∀ r, ∀ t ∈ step r, R r t) (n : Nat) (r : Reached) (others : List Reached)
    (t : Reached) (ht : t ∈ repeated step n r others) : t ∈ others ∨ R r t := by
  induction n generalizing r others with
  | zero =>
    rcases List.mem_cons.1 ht with rfl | ht
    · exact .inr (hrefl t)
    · exact .inl ht
  | succ n ih =>
    unfold repeated at ht
    -- The steps from `r` are tried in order, and each may be followed by more of them.
    have hfold : ∀ l : List Reached, (∀ s ∈ l, R r s) →
        t ∈ l.foldr (fun s found =>
          if r.cursor.offset < s.cursor.offset then repeated step n s found else found)
            (r :: others) → t ∈ others ∨ R r t := by
      intro l hl ht
      induction l with
      | nil =>
        rcases List.mem_cons.1 ht with rfl | ht
        · exact .inr (hrefl t)
        · exact .inl ht
      | cons s l ihl =>
        have hrest := ihl fun u hu => hl u (List.mem_cons_of_mem _ hu)
        rw [List.foldr_cons] at ht
        split_ifs at ht
        · rcases ih s _ ht with ht | hs
          · exact hrest ht
          · exact .inr (htrans (hl s List.mem_cons_self) hs)
        · exact hrest ht
    exact hfold (step r) (hstep r) ht

/-- A class matches one character that belongs to it. -/
theorem mem_ends_one {q : Char → Bool} {r t : Reached} (ht : t ∈ (one q).ends r) :
    ∃ ch, q ch = true ∧ r.cursor.Moves [ch] t.cursor ∧ t.groups = r.groups := by
  obtain ⟨⟨offset, behind, rest⟩, groups⟩ := r
  cases rest with
  | nil => exact absurd ht List.not_mem_nil
  | cons ch rest =>
    simp only [ends] at ht
    split_ifs at ht with hq
    · obtain rfl := List.mem_singleton.1 ht
      exact ⟨ch, hq, Cursor.moves_cons _ _ _ _, rfl⟩
    · exact absurd ht List.not_mem_nil

/-- A sequence matches what its first part does and, from there, its second part. -/
theorem mem_ends_append {a b : Pattern} {r t : Reached} :
    t ∈ (a ++ b).ends r ↔ ∃ s ∈ a.ends r, t ∈ b.ends s := List.mem_flatMap

/-- A group matches what its pattern does and keeps the span. -/
theorem mem_ends_group {n : Nat} {a : Pattern} {r t : Reached} :
    t ∈ (group n a).ends r ↔
      ∃ s ∈ a.ends r, ⟨s.cursor, (n, ⟨r.cursor, s.cursor⟩) :: s.groups⟩ = t := List.mem_map

/-- A condition on the text around a position matches nothing but the position. -/
theorem eq_of_mem_ite {b : Bool} {r t : Reached} (ht : t ∈ if b then [r] else []) : t = r := by
  split_ifs at ht
  · exact List.mem_singleton.1 ht
  · exact absurd ht List.not_mem_nil

/-- A boundary is matched where one is, and nothing is read. -/
theorem mem_ends_boundary {r t : Reached} :
    t ∈ boundary.ends r ↔ t = r ∧ r.cursor.atBoundary = true := by
  rw [ends]
  split_ifs with hat
  · rw [List.mem_singleton, and_iff_left hat]
  · exact iff_of_false List.not_mem_nil fun h => hat h.2

/-- The start of a text is matched where nothing stands before. -/
theorem mem_ends_atStart {r t : Reached} :
    t ∈ atStart.ends r ↔ t = r ∧ r.cursor.behind = [] := by
  rw [ends]
  split_ifs with hat
  · rw [List.mem_singleton, and_iff_left (List.isEmpty_iff.1 hat)]
  · exact iff_of_false List.not_mem_nil fun h => hat (List.isEmpty_iff.2 h.2)

/-- The end of a text is matched where nothing follows. -/
theorem mem_ends_atEnd {r t : Reached} : t ∈ atEnd.ends r ↔ t = r ∧ r.cursor.rest = [] := by
  rw [ends]
  split_ifs with hat
  · rw [List.mem_singleton, and_iff_left (List.isEmpty_iff.1 hat)]
  · exact iff_of_false List.not_mem_nil fun h => hat (List.isEmpty_iff.2 h.2)

/-- A match ends behind characters that the pattern reads, and keeps only groups of the pattern. -/
theorem ends_spec (p : Pattern) (r t : Reached) (ht : t ∈ p.ends r) :
    Extends (p.reads · = true) (p.hasGroup · = true) r t := by
  induction p generalizing r t with
  | empty =>
    obtain rfl := List.mem_singleton.1 ht
    exact .refl t
  | one q =>
    obtain ⟨ch, hq, hmoves, hgroups⟩ := mem_ends_one ht
    refine ⟨[ch], [], hmoves, ?_, hgroups, List.forall_mem_nil _⟩
    intro ch' hch'
    obtain rfl := List.mem_singleton.1 hch'
    exact hq
  | boundary =>
    obtain rfl := eq_of_mem_ite ht
    exact .refl t
  | atStart =>
    obtain rfl := eq_of_mem_ite ht
    exact .refl t
  | atEnd =>
    obtain rfl := eq_of_mem_ite ht
    exact .refl t
  | seq a b iha ihb =>
    obtain ⟨s, hs, ht⟩ := mem_ends_append.1 ht
    exact ((iha r s hs).mono (fun _ => Bool.or_inl) fun _ => Bool.or_inl).trans
      ((ihb s t ht).mono (fun _ => Bool.or_inr) fun _ => Bool.or_inr)
  | alt a b iha ihb =>
    rcases List.mem_append.1 ht with ht | ht
    · exact (iha r t ht).mono (fun _ => Bool.or_inl) fun _ => Bool.or_inl
    · exact (ihb r t ht).mono (fun _ => Bool.or_inr) fun _ => Bool.or_inr
  | many a ih =>
    exact (mem_repeated .refl .trans ih _ r [] t ht).resolve_left List.not_mem_nil
  | group n a ih =>
    obtain ⟨s, hs, rfl⟩ := mem_ends_group.1 ht
    obtain ⟨w, gs, hw, hP, hgs, hQ⟩ := ih r s hs
    refine ⟨w, (n, ⟨r.cursor, s.cursor⟩) :: gs, hw, hP, ?_, ?_⟩
    · rw [hgs]
      rfl
    · intro g hg
      rcases List.mem_cons.1 hg with rfl | hg
      · exact Bool.or_inl (beq_self_eq_true n)
      · exact Bool.or_inr (hQ g hg)

/-- A pattern without a group leaves what is kept under its number. -/
theorem lookup_of_mem_ends {p : Pattern} {n : Nat} (hn : p.hasGroup n = false) {r t : Reached}
    (ht : t ∈ p.ends r) : t.groups.lookup n = r.groups.lookup n := by
  obtain ⟨-, gs, -, -, hgs, hQ⟩ := p.ends_spec r t ht
  have hnone : gs.lookup n = none := by
    rw [List.lookup_eq_none_iff]
    intro g hg
    have hne : n ≠ g.1 := by
      rintro rfl
      exact Bool.false_ne_true (hn.symm.trans (hQ g hg))
    exact bne_iff_ne.2 hne
  rw [hgs, List.lookup_append, hnone, Option.none_or]

/-- A pattern that matches no empty text goes forward. -/
theorem offset_lt_of_mem_ends {p : Pattern} (hp : p.consumes = true) {r t : Reached}
    (ht : t ∈ p.ends r) : r.cursor.offset < t.cursor.offset := by
  have hle {a : Pattern} {r s : Reached} (hs : s ∈ a.ends r) :
      r.cursor.offset ≤ s.cursor.offset := by
    obtain ⟨w, -, hmoves, -⟩ := a.ends_spec r s hs
    rw [hmoves.offset]
    exact Nat.le_add_right _ _
  induction p generalizing r t with
  | one q =>
    obtain ⟨ch, -, hmoves, -⟩ := mem_ends_one ht
    exact hmoves.offset_lt (List.cons_ne_nil ch [])
  | seq a b iha ihb =>
    obtain ⟨s, hs, ht⟩ := mem_ends_append.1 ht
    rcases Bool.or_eq_true_iff.1 hp with ha | hb
    · exact Nat.lt_of_lt_of_le (iha ha hs) (hle ht)
    · exact Nat.lt_of_le_of_lt (hle hs) (ihb hb ht)
  | alt a b iha ihb =>
    obtain ⟨ha, hb⟩ := Bool.and_eq_true_iff.1 hp
    exact (List.mem_append.1 ht).elim (iha ha) (ihb hb)
  | group n a ih =>
    obtain ⟨s, hs, rfl⟩ := mem_ends_group.1 ht
    have hlt := ih hp hs
    exact hlt
  | _ => exact absurd hp Bool.false_ne_true

/-- A pattern that matches no empty text matches nothing at the end of the text. -/
theorem rest_ne_nil_of_mem_ends {p : Pattern} (hp : p.consumes = true) {r t : Reached}
    (ht : t ∈ p.ends r) : r.cursor.rest ≠ [] := by
  obtain ⟨w, -, hmoves, -⟩ := p.ends_spec r t ht
  have hlt := offset_lt_of_mem_ends hp ht
  rw [hmoves.offset] at hlt
  rw [hmoves.rest]
  refine fun h => ?_
  rw [(List.append_eq_nil_iff.1 h).1] at hlt
  exact Nat.lt_irrefl _ hlt

/-- A given text is matched by itself alone. -/
theorem mem_ends_text {w : List Char} {r t : Reached} (ht : t ∈ (text w).ends r) :
    r.cursor.Moves w t.cursor := by
  induction w generalizing r with
  | nil =>
    obtain rfl := List.mem_singleton.1 ht
    exact .refl _
  | cons c w ih =>
    obtain ⟨s, hs, ht'⟩ := mem_ends_append.1 ht
    obtain ⟨ch, hch, hmoves, -⟩ := mem_ends_one hs
    obtain rfl := beq_iff_eq.1 hch
    exact hmoves.trans (ih ht')

/-- Of several patterns one matches. -/
theorem mem_ends_oneOf {ps : List Pattern} {r t : Reached} (ht : t ∈ (oneOf ps).ends r) :
    ∃ p ∈ ps, t ∈ p.ends r := by
  induction ps with
  | nil =>
    obtain ⟨ch, hch, -⟩ := mem_ends_one ht
    exact absurd hch Bool.false_ne_true
  | cons p ps ih =>
    cases ps with
    | nil => exact ⟨p, List.mem_singleton_self p, ht⟩
    | cons q ps =>
      rcases List.mem_append.1 ht with ht | ht
      · exact ⟨p, List.mem_cons_self, ht⟩
      · obtain ⟨p', hp', ht⟩ := ih ht
        exact ⟨p', List.mem_cons_of_mem _ hp', ht⟩

/-- The match at a position comes from one of the pattern's ends there. -/
theorem exists_mem_ends_of_matchAt? {p : Pattern} {c : Cursor} {m : Match}
    (h : p.matchAt? c = some m) : ∃ t ∈ p.ends ⟨c, []⟩, m = ⟨c, t.cursor, t.groups⟩ := by
  unfold matchAt? at h
  obtain ⟨t, ht, rfl⟩ := Option.map_eq_some_iff.1 h
  exact ⟨t, List.mem_of_mem_head? ht, rfl⟩

/-- A position with an end of the pattern has a match. -/
theorem matchAt?_ne_none_of_mem_ends {p : Pattern} {c : Cursor} {t : Reached}
    (ht : t ∈ p.ends ⟨c, []⟩) : p.matchAt? c ≠ none := by
  unfold matchAt?
  rw [Ne, Option.map_eq_none_iff, List.head?_eq_none_iff]
  exact List.ne_nil_of_mem ht

/-- Where a pattern that matches no empty text matches, the text has not ended. -/
theorem rest_ne_nil_of_matchAt? {p : Pattern} (hp : p.consumes = true) {c : Cursor} {m : Match}
    (h : p.matchAt? c = some m) : c.rest ≠ [] := by
  obtain ⟨t, ht, -⟩ := exists_mem_ends_of_matchAt? h
  exact rest_ne_nil_of_mem_ends hp ht

/-- A match of a pattern that matches no empty text ends behind its start. -/
theorem offset_lt_of_matchAt? {p : Pattern} (hp : p.consumes = true) {c : Cursor} {m : Match}
    (h : p.matchAt? c = some m) : c.offset < m.stop.offset := by
  obtain ⟨t, ht, rfl⟩ := exists_mem_ends_of_matchAt? h
  exact offset_lt_of_mem_ends hp ht

/-- A match goes forward over characters that the pattern reads. -/
theorem moves_of_matchAt? {p : Pattern} {c : Cursor} {m : Match} (h : p.matchAt? c = some m) :
    m.start = c ∧ ∃ w, c.Moves w m.stop ∧ ∀ ch ∈ w, p.reads ch = true := by
  obtain ⟨t, ht, rfl⟩ := exists_mem_ends_of_matchAt? h
  obtain ⟨w, -, hw, hP, -⟩ := p.ends_spec ⟨c, []⟩ t ht
  exact ⟨rfl, w, hw, hP⟩

end Pattern

end ManifestSync
