import ManifestSync.Proofs.Pattern.Language

/-!
# The preferred match

Of all the ways in which a pattern matches, `Prefers` says which one comes first: the one that reads
a given text, where it is known what stands before that text and behind it. There is one lemma for
each kind of pattern. A sequence prefers what its parts prefer, the first part in front of all that
the second one reads; repetitions of a class prefer to read as far as the class goes.
-/

namespace ManifestSync.Pattern

/-- Between `b`, backwards, and `z` the preferred match of a pattern reads `w` and keeps no span. -/
def Prefers (p : Pattern) (b w z : List Char) : Prop :=
  ∀ offset groups, (p.ends ⟨⟨offset, b, w ++ z⟩, groups⟩).head? =
    some ⟨⟨offset + Text.byteLength w, w.reverse ++ b, z⟩, groups⟩

/-- What a class does not go on with: the text is at its end or its first character is another. -/
def Stops (p : Char → Bool) (z : List Char) : Prop := ∀ ch ∈ z.head?, p ch = false

variable {a : Pattern} {p : Char → Bool} {b v w z : List Char} {ch : Char}

/-- Where a class stops there is no character of it. -/
theorem Stops.any_eq_false (h : Stops p z) : z.head?.any p = false := by
  cases z with
  | nil => rfl
  | cons ch z => exact h ch rfl

/-- A class stops where its characters have been taken from the start of a text. -/
theorem stops_dropWhile (p : Char → Bool) (z : List Char) : Stops p (z.dropWhile p) := by
  intro ch hch
  have hhead := List.head?_dropWhile_not p z
  rw [hch] at hhead
  exact hhead

/-- The preferred match of a sequence goes on where that of its first part ends. -/
theorem head?_ends_append {a b : Pattern} {r s t : Reached} (h : (a.ends r).head? = some s)
    (h' : (b.ends s).head? = some t) : ((a ++ b).ends r).head? = some t := by
  obtain ⟨others, hs⟩ := List.head?_eq_some_iff.1 h
  obtain ⟨others', ht⟩ := List.head?_eq_some_iff.1 h'
  show ((a.ends r).flatMap b.ends).head? = some t
  rw [hs, List.flatMap_cons, ht]
  rfl

/-- The preferred match of a group is that of its pattern. -/
theorem head?_ends_group {n : Nat} {r t : Reached} (h : (a.ends r).head? = some t) :
    ((group n a).ends r).head? = some ⟨t.cursor, (n, ⟨r.cursor, t.cursor⟩) :: t.groups⟩ := by
  rw [ends, List.head?_map, h]
  rfl

/-- A sequence prefers what its parts prefer. -/
theorem Prefers.append {c : Pattern} (h : a.Prefers b v (w ++ z))
    (h' : c.Prefers (v.reverse ++ b) w z) : (a ++ c).Prefers b (v ++ w) z := by
  intro offset groups
  have hends := head?_ends_append (h offset groups) (h' _ _)
  rw [List.append_assoc, hends, Text.byteLength_append, List.reverse_append, List.append_assoc,
    Nat.add_assoc]

/-- A second part that reads nothing leaves a sequence with what its first part prefers. -/
theorem Prefers.append_nil {c : Pattern} (h : a.Prefers b w z)
    (h' : c.Prefers (w.reverse ++ b) [] z) : (a ++ c).Prefers b w z := by
  have happend := Prefers.append (w := []) h h'
  rwa [List.append_nil] at happend

/-- A class reads a character that belongs to it. -/
theorem prefers_one (h : p ch = true) : (one p).Prefers b [ch] z := by
  intro offset groups
  simp only [List.singleton_append, ends, if_pos h, List.head?_cons]
  rfl

/-- A character reads itself. -/
theorem prefers_char : (char ch).Prefers b [ch] z := prefers_one (beq_self_eq_true ch)

/-- A class reads nothing where it stops. -/
theorem ends_one_eq_nil (h : Stops p z) (offset : Nat) (groups : List (Nat × Span)) :
    (one p).ends ⟨⟨offset, b, z⟩, groups⟩ = [] := by
  cases z with
  | nil => rfl
  | cons ch z => simp only [ends, h ch rfl, Bool.false_eq_true, if_false]

/-- A given text reads itself. -/
theorem prefers_text : (text w).Prefers b w z := by
  induction w generalizing b with
  | nil => exact fun _ _ => rfl
  | cons ch w ih => exact prefers_char.append ih

/-- What may be there is preferred if it is. -/
theorem Prefers.maybe (h : a.Prefers b w z) : (maybe a).Prefers b w z := by
  intro offset groups
  show (a.ends _ ++ _).head? = _
  rw [List.head?_append, h offset groups]
  rfl

/-- What may be there, and is not, is left out. -/
theorem prefers_maybe_nil (h : Stops p z) : (maybe (one p)).Prefers b [] z := by
  intro offset groups
  show ((one p).ends _ ++ _).head? = _
  rw [List.nil_append, ends_one_eq_nil h]
  rfl

/-- A boundary reads nothing. -/
theorem prefers_boundary (h : (b.head?.any Text.isWord != z.head?.any Text.isWord) = true) :
    boundary.Prefers b [] z := by
  intro offset groups
  have hat : (Cursor.mk offset b ([] ++ z)).atBoundary = true := h
  simp only [ends, if_pos hat]
  rfl

/-- The start of the text reads nothing. -/
theorem prefers_atStart : atStart.Prefers [] [] z := fun _ _ => rfl

/-- The end of the text reads nothing. -/
theorem prefers_atEnd : atEnd.Prefers b [] [] := fun _ _ => rfl

/-- Where there is no step there is no repetition. -/
theorem repeated_eq_singleton {step : Reached → List Reached} {r : Reached} (h : step r = [])
    (n : Nat) : repeated step n r [] = [r] := by
  cases n with
  | zero => rfl
  | succ n => rw [repeated_succ, h, List.filter_nil, List.flatMap_nil, List.nil_append]

/-- Repetitions of a class read as far as it goes. -/
theorem prefers_many (hw : ∀ ch ∈ w, p ch = true) (hz : Stops p z) :
    (many (one p)).Prefers b w z := by
  -- There are at least as many repetitions as characters of the class.
  have hrepeated : ∀ n b offset groups, w.length ≤ n →
      (repeated (one p).ends n ⟨⟨offset, b, w ++ z⟩, groups⟩ []).head? =
        some ⟨⟨offset + Text.byteLength w, w.reverse ++ b, z⟩, groups⟩ := by
    induction w with
    | nil =>
      intro n b offset groups _
      rw [List.nil_append, repeated_eq_singleton (ends_one_eq_nil hz offset groups)]
      rfl
    | cons ch w ih =>
      obtain ⟨hch, hw⟩ := List.forall_mem_cons.1 hw
      intro n b offset groups hn
      obtain ⟨n, rfl⟩ : ∃ m, n = m + 1 := ⟨n - 1, by rw [List.length_cons] at hn; omega⟩
      have hstep : (one p).ends ⟨⟨offset, b, ch :: w ++ z⟩, groups⟩ =
          [⟨⟨offset + ch.utf8Size, ch :: b, w ++ z⟩, groups⟩] := by
        simp only [List.cons_append, ends, if_pos hch]
      have hforward : offset < offset + ch.utf8Size := Nat.lt_add_of_pos_right ch.utf8Size_pos
      rw [repeated_succ, hstep, List.filter_cons_of_pos (by simpa using hforward), List.filter_nil,
        List.flatMap_singleton, List.head?_append,
        ih hw n _ _ _ (Nat.le_of_succ_le_succ hn), List.reverse_cons, List.append_assoc,
        Text.byteLength, Nat.add_assoc]
      rfl
  intro offset groups
  refine hrepeated _ b offset groups ?_
  rw [List.length_append]
  exact Nat.le_add_right _ _

/-- One repetition or more read as far as the class goes. -/
theorem prefers_oneOrMore (hw : ∀ ch ∈ w, p ch = true) (hne : w ≠ []) (hz : Stops p z) :
    (oneOrMore (one p)).Prefers b w z := by
  obtain ⟨ch, w, rfl⟩ := List.exists_cons_of_ne_nil hne
  obtain ⟨hch, hw⟩ := List.forall_mem_cons.1 hw
  exact (prefers_one hch).append (prefers_many hw hz)

/-- The match at a position is the preferred one. -/
theorem Prefers.matchAt?_eq (h : a.Prefers b w z) (offset : Nat) :
    a.matchAt? ⟨offset, b, w ++ z⟩ = some ⟨⟨offset, b, w ++ z⟩,
      ⟨offset + Text.byteLength w, w.reverse ++ b, z⟩, []⟩ := by
  unfold matchAt?
  rw [h offset []]
  rfl

end ManifestSync.Pattern
