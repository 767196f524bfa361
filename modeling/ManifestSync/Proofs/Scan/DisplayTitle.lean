import ManifestSync.Proofs.Scan.Identifier
import ManifestSync.Proofs.Text.Word

/-!
# The identifier that a title is displayed without

A title is displayed without the identifier at its start or, if there is none, without the one at its
end (`removed?`). Blanks and separators go with it, and `TakesAway` says between which positions the
identifier itself stands. The test is named by the first identifier anywhere in the title, which the
pattern finds. `removed_eq_reported_iff` says when the two are one: exactly if no identifier begins in
front of the one that is taken away, and so always at the start of a title.

What is taken away is an identifier also for the pattern, since there is a boundary at both of its
ends: in front of it there is nothing, a blank or an at sign, and behind it a boundary is asked for or
only blanks follow. An identifier at a position ends in one place only (`Occurs.right_unique`), because
its digits go on as far as the boundary behind them. So if the first match begins where the removed
identifier does, it also ends there.
-/

namespace ManifestSync.Scan

open Pattern

namespace IdWord

/-! ## What is taken away -/

/-- The match that is taken away from a title: an identifier at its start or, if there is none, at its
end. -/
def removed? (w : IdWord) (title : List Char) : Option Match :=
  (w.leading.find? title).or (w.trailing.find? title)

/-- What a match takes away from a title is the identifier between two positions, with blanks in front
of it and what separates it from the rest behind it. -/
structure TakesAway (w : IdWord) (m : Match) (c e : Cursor) : Prop where
  /-- In front of the identifier only blanks are taken away. -/
  before : ∃ gap, (∀ ch ∈ gap, Text.isBlank ch = true) ∧ m.start.Moves gap c
  /-- Between the two positions stands an identifier. -/
  occurs : w.Occurs c e
  /-- Behind it only separators are taken away. -/
  behind : ∃ mark, (∀ ch ∈ mark, separates ch = true) ∧ e.Moves mark m.stop

variable {w : IdWord} {title : List Char}

/-- A title from which nothing is taken away is displayed as it is, but for blanks at its ends. -/
theorem displayTitle_of_removed?_eq_none (h : w.removed? title = none) :
    w.displayTitle title = Text.trim title := by
  obtain ⟨hleading, htrailing⟩ := Option.or_eq_none_iff.1 h
  unfold displayTitle replaceFirst
  rw [hleading, htrailing]
  rfl

/-- A title from which a match is taken away is displayed as what stands around the match. -/
theorem displayTitle_of_removed? {m : Match} (h : w.removed? title = some m) :
    w.displayTitle title = Text.trim ((Cursor.start title).textTo m.start ++ m.stop.rest) := by
  rw [← List.append_nil ((Cursor.start title).textTo m.start)]
  unfold removed? at h
  cases hleading : w.leading.find? title with
  | some m' =>
    rw [hleading, Option.some_or] at h
    obtain rfl := Option.some.inj h
    exact displayTitle_of_leading hleading
  | none =>
    rw [hleading, Option.none_or] at h
    exact displayTitle_of_trailing hleading h

/-! ## Where an identifier ends -/

/-- There is a boundary behind word and number exactly if no word character follows. -/
theorem Spelled.atBoundary_iff {x : List Char} {d e : Cursor} (hx : w.Spelled x)
    (hmoves : d.Moves x e) : e.atBoundary = true ↔ Stops Text.isWord e.rest := by
  obtain ⟨init, last, rfl, hlast⟩ := hx.exists_last
  have hbehind : e.behind.head?.any Text.isWord = true := by
    rw [hmoves.behind, List.reverse_append]
    exact Text.isWord_of_isDigit hlast
  rw [Cursor.atBoundary, hbehind]
  cases hrest : e.rest with
  | nil => exact iff_of_true rfl fun _ h => absurd h (Option.not_mem_none _)
  | cons ch rest => simp [Stops]

/-- Characters of a class up to where the class stops are determined by the text. -/
theorem eq_of_append_eq_of_stops {p : Char → Bool} {x y u v : List Char} (hx : ∀ ch ∈ x, p ch = true)
    (hy : ∀ ch ∈ y, p ch = true) (hu : Stops p u) (hv : Stops p v) (h : x ++ u = y ++ v) : x = y := by
  have htaken : ∀ {z : List Char}, Stops p z → z.takeWhile p = [] := by
    intro z hz
    cases z with
    | nil => rfl
    | cons ch z => rw [List.takeWhile_cons_of_neg (by simp [hz ch rfl])]
  have hsame := congrArg (List.takeWhile p) h
  rw [List.takeWhile_append_of_pos hx, List.takeWhile_append_of_pos hy, htaken hu, htaken hv] at hsame
  simpa using hsame

/-- Word and number at the start of a text are determined by it, if no digit follows. -/
theorem Spelled.eq_of_append_eq {x y u v : List Char} (hx : w.Spelled x) (hy : w.Spelled y)
    (hu : Stops Text.isDigit u) (hv : Stops Text.isDigit v) (h : x ++ u = y ++ v) : x = y := by
  obtain ⟨separator, gap, digits, rfl, -, hgap, hne, hdigits⟩ := hx
  obtain ⟨separator', gap', digits', rfl, -, hgap', hne', hdigits'⟩ := hy
  simp only [List.append_assoc, List.cons_append] at h
  obtain ⟨rfl, hrest⟩ := List.cons.inj (List.append_cancel_left h)
  -- A digit is no blank, so both have the same gap.
  obtain rfl : gap = gap' := by
    obtain ⟨ch, more, rfl⟩ := List.exists_cons_of_ne_nil hne
    obtain ⟨ch', more', rfl⟩ := List.exists_cons_of_ne_nil hne'
    have hch : ch ≠ ' ' := fun hblank => absurd (hdigits ch List.mem_cons_self) (by rw [hblank]; decide)
    have hch' : ch' ≠ ' ' :=
      fun hblank => absurd (hdigits' ch' List.mem_cons_self) (by rw [hblank]; decide)
    rcases hgap with rfl | rfl <;> rcases hgap' with rfl | rfl
    · rfl
    · exact absurd (List.cons.inj hrest).1.symm hch'
    · exact absurd (List.cons.inj hrest).1 hch
    · rfl
  rw [eq_of_append_eq_of_stops hdigits hdigits' hu hv (List.append_cancel_left hrest)]

section
variable {first : Char} {rest : List Char} (hword : w.word = first :: rest)
  (hfirst : Text.isWord first = true)
include hword hfirst

/-- An identifier begins with an at sign or a word character, and so with no blank. -/
theorem HasIdentifier.stops_isBlank {c : Cursor} (h : w.HasIdentifier c) :
    Stops Text.isBlank c.rest := by
  obtain ⟨sign, x, d, e, hsign, hx, hmoves, -, hmoves', -⟩ := h
  obtain ⟨separator, gap, digits, rfl, -⟩ := hx
  rw [hmoves.rest, hmoves'.rest, hword]
  intro ch hch
  rcases hsign with rfl | rfl
  · obtain rfl := Option.some.inj hch
    decide
  · obtain rfl := Option.some.inj hch
    exact Text.isBlank_of_isWord hfirst

/-- The identifier at a position ends in one place only. -/
theorem Occurs.right_unique {c e e' : Cursor} (h : w.Occurs c e) (h' : w.Occurs c e') : e = e' := by
  obtain ⟨sign, x, d, hsign, hx, hmoves, -, hmoves₁, hat⟩ := h
  obtain ⟨sign', x', d', hsign', hx', hmoves', -, hmoves₁', hat'⟩ := h'
  have hstop : ∀ {z}, Stops Text.isWord z → Stops Text.isDigit z := by
    intro z hz ch hch
    cases hdigit : Text.isDigit ch with
    | false => rfl
    | true => exact nomatch (hz ch hch).symm.trans (Text.isWord_of_isDigit hdigit)
  have hbegins : ∀ {y}, w.Spelled y → ∃ more, y = first :: more := by
    rintro _ ⟨separator, gap, digits, rfl, -⟩
    rw [hword]
    exact ⟨_, rfl⟩
  -- The word does not begin with an at sign, so both have the same sign.
  obtain rfl : sign = sign' := by
    obtain ⟨more, hmore⟩ := hbegins hx
    obtain ⟨more', hmore'⟩ := hbegins hx'
    have htext := (hmoves.trans hmoves₁).rest.symm.trans (hmoves'.trans hmoves₁').rest
    have hat : first ≠ '@' := by
      rintro rfl
      exact absurd hfirst (by decide)
    rw [hmore, hmore'] at htext
    rcases hsign with rfl | rfl <;> rcases hsign' with rfl | rfl
    · rfl
    · exact absurd (List.cons.inj htext).1.symm hat
    · exact absurd (List.cons.inj htext).1 hat
    · rfl
  obtain rfl := hmoves.right_unique hmoves'
  obtain rfl := hx.eq_of_append_eq hx' (hstop ((hx.atBoundary_iff hmoves₁).1 hat))
    (hstop ((hx'.atBoundary_iff hmoves₁').1 hat')) (hmoves₁.rest.symm.trans hmoves₁'.rest)
  exact hmoves₁.right_unique hmoves₁'

/-- The identifier that a match takes away is determined by the match. -/
theorem TakesAway.unique {m : Match} {c e c' e' : Cursor} (h : w.TakesAway m c e)
    (h' : w.TakesAway m c' e') : c' = c ∧ e' = e := by
  obtain ⟨⟨gap, hgap, hmoves⟩, hoccurs, -⟩ := h
  obtain ⟨⟨gap', hgap', hmoves'⟩, hoccurs', -⟩ := h'
  have hvisible := (hasIdentifier_iff.2 ⟨e, hoccurs⟩).stops_isBlank hword hfirst
  have hvisible' := (hasIdentifier_iff.2 ⟨e', hoccurs'⟩).stops_isBlank hword hfirst
  obtain rfl := eq_of_append_eq_of_stops hgap hgap' hvisible hvisible'
    (hmoves.rest.symm.trans hmoves'.rest)
  obtain rfl := hmoves.right_unique hmoves'
  exact ⟨rfl, hoccurs'.right_unique hword hfirst hoccurs⟩

/-! ## What is taken away is an identifier -/

/-- What is taken for an identifier at the start of a title is one, and none begins in front of it. -/
theorem exists_takesAway_of_leading {m : Match} (h : w.leading.find? title = some m) :
    ∃ c e, c.IsIn title ∧ w.TakesAway m c e ∧
      ∀ d : Cursor, d.IsIn title → d.offset < c.offset → ¬ w.HasIdentifier d := by
  obtain ⟨hin, hat⟩ := of_mem_findAll (List.mem_of_mem_head? h)
  obtain ⟨hbehind, gap, sign, x, mark, c, d, e, hgap, hsign, hx, hmark, hmoves, hmoves₁, hmoves₂,
    hboundary, hmoves₃⟩ := exists_moves_of_matchAt?_leading hat
  refine ⟨c, e, hmoves.isIn hin, ⟨⟨gap, hgap, hmoves⟩, ⟨sign, x, d, hsign, hx, hmoves₁, ?_, hmoves₂,
    hboundary⟩, ⟨mark, hmark, hmoves₃⟩⟩, ?_⟩
  · -- In front of the word there is nothing but blanks and perhaps an at sign.
    have hnone : d.behind.head?.any Text.isWord = false := by
      rw [hmoves₁.behind, hmoves.behind, hbehind, List.append_nil]
      rcases hsign with rfl | rfl
      · rfl
      · rw [List.reverse_nil, List.nil_append, List.head?_reverse, Option.any_eq_false]
        intro ch hch
        cases hch' : Text.isWord ch with
        | false => rfl
        | true =>
          have hblank := hgap ch (List.mem_of_getLast? hch)
          exact nomatch hblank.symm.trans (Text.isBlank_of_isWord hch')
    obtain ⟨separator, gap', digits, rfl, -⟩ := hx
    rw [Cursor.atBoundary, hnone, hmoves₂.rest, hword]
    show (false != Text.isWord first) = true
    rw [hfirst]
    rfl
  · -- What begins in front of it begins with a blank.
    intro d' hd' hlt hhas
    have hstart : m.start.offset ≤ d'.offset := by
      rw [hin.offset_eq, hbehind]
      exact Nat.zero_le _
    obtain ⟨u, v, rfl, -, hmoves'⟩ := hmoves.exists_split hin hd' hstart (Nat.le_of_lt hlt)
    cases v with
    | nil =>
      have hoffset := hmoves'.offset
      rw [Text.byteLength] at hoffset
      omega
    | cons ch v =>
      have hblank := hgap ch (List.mem_append_right _ List.mem_cons_self)
      have hvisible := hhas.stops_isBlank hword hfirst ch (by rw [hmoves'.rest]; rfl)
      exact nomatch hblank.symm.trans hvisible

omit hword hfirst in
/-- What is taken for an identifier at the end of a title is one. -/
theorem exists_takesAway_of_trailing {m : Match} (h : w.trailing.find? title = some m) :
    ∃ c e, c.IsIn title ∧ w.TakesAway m c e := by
  obtain ⟨hin, hat⟩ := of_mem_findAll (List.mem_of_mem_head? h)
  obtain ⟨hend, gap, sign, x, gap', c, d, e, hgap, hsign, hx, hgap', hmoves, hmoves₁, hboundary,
    hmoves₂, hmoves₃⟩ := exists_moves_of_matchAt?_trailing hat
  refine ⟨c, e, hmoves.isIn hin, ⟨⟨gap, hgap, hmoves⟩, ⟨sign, x, d, hsign, hx, hmoves₁, hboundary,
    hmoves₂, ?_⟩, ⟨gap', fun ch hch => ?_, hmoves₃⟩⟩⟩
  · -- Behind the digits there are only blanks.
    rw [hx.atBoundary_iff hmoves₂, hmoves₃.rest, hend, List.append_nil]
    intro ch hch
    cases hch' : Text.isWord ch with
    | false => rfl
    | true =>
      have hblank := hgap' ch (List.mem_of_mem_head? hch)
      exact nomatch hblank.symm.trans (Text.isBlank_of_isWord hch')
  · rw [separates, hgap' ch hch]
    rfl

/-! ## The first identifier -/

/-- The identifier between two positions is the one by which a title names its test. -/
def Reports (w : IdWord) (title : List Char) (c e : Cursor) : Prop :=
  ∃ r, w.pattern.find? title = some r ∧ r.start = c ∧ r.stop = e

/-- A title with an identifier names a test. It names it by a given one exactly if none begins in
front of that. -/
theorem reports_iff_of_occurs {c e : Cursor} (hc : c.IsIn title) (h : w.Occurs c e) :
    (∃ id, w.identifier? title = some id) ∧ (w.Reports title c e ↔
      ∀ d : Cursor, d.IsIn title → d.offset < c.offset → ¬ w.HasIdentifier d) := by
  have hhas : w.HasIdentifier c := hasIdentifier_iff.2 ⟨e, h⟩
  obtain ⟨m, hm⟩ := Option.ne_none_iff_exists'.1 (matchAt?_ne_none_of_hasIdentifier hhas)
  have hstart : m.start = c := (moves_of_matchAt? hm).1
  have hstop : m.stop = e := (occurs_of_matchAt? hm).1.right_unique hword hfirst h
  refine ⟨?_, ?_, fun hfree => ?_⟩
  · obtain ⟨r, hr⟩ : ∃ r, w.pattern.find? title = some r := by
      refine Option.ne_none_iff_exists'.1 fun hnone => ?_
      exact nomatch (find?_eq_none_iff.1 hnone c hc hhas.rest_ne_nil).symm.trans hm
    obtain ⟨-, hat⟩ := of_mem_findAll (List.mem_of_mem_head? hr)
    obtain ⟨digits, hdigits, -⟩ := (occurs_of_matchAt? hat).2
    refine ⟨w.word ++ '-' :: digits, ?_⟩
    rw [identifier?, hr, Option.bind_some, hdigits]
    rfl
  · rintro ⟨r, hr, rfl, -⟩ d hd hlt hearlier
    have hnone := matchAt?_eq_none_of_find? hr hd hearlier.rest_ne_nil hlt
    exact matchAt?_ne_none_of_hasIdentifier hearlier hnone
  · refine ⟨m, find?_eq_some_of_first hc hhas.rest_ne_nil hm fun d hd hlt => ?_, hstart, hstop⟩
    rw [Option.eq_none_iff_forall_ne_some]
    exact fun m' hm' => hfree d hd hlt (hasIdentifier_of_matchAt? hm')

/-- From a title that is displayed as something else an identifier is taken away. At the start of the
title it has none in front of it. -/
theorem exists_removed_of_ne (hchanged : w.displayTitle title ≠ Text.trim title) :
    ∃ m c e, w.removed? title = some m ∧ w.TakesAway m c e ∧ c.IsIn title ∧
      ((w.leading.find? title).isSome = true →
        ∀ d : Cursor, d.IsIn title → d.offset < c.offset → ¬ w.HasIdentifier d) := by
  cases hleading : w.leading.find? title with
  | some m =>
    obtain ⟨c, e, hc, htakes, hnone⟩ := exists_takesAway_of_leading hword hfirst hleading
    exact ⟨m, c, e, by rw [removed?, hleading, Option.some_or], htakes, hc, fun _ => hnone⟩
  | none =>
    cases htrailing : w.trailing.find? title with
    | some m =>
      obtain ⟨c, e, hc, htakes⟩ := exists_takesAway_of_trailing htrailing
      refine ⟨m, c, e, ?_, htakes, hc, fun h => nomatch h⟩
      rw [removed?, hleading, htrailing, Option.none_or]
    | none =>
      refine absurd (displayTitle_of_removed?_eq_none ?_) hchanged
      rw [removed?, hleading, htrailing, Option.or_none]

end

end IdWord

/-- Which identifier a title is displayed without. Let a word begin with a word character. If a title
is displayed as something else than the trimmed title, then exactly one identifier is taken away from
it, and the title names a test. It names the test by that identifier exactly if no other one begins in
front of it, as is always so at the start of the title. -/
theorem removed_eq_reported_iff {text rest title : List Char} {first : Char}
    (htext : Text.trim text = first :: rest) (hfirst : Text.isWord first = true)
    (hchanged : (IdWord.ofText text).displayTitle title ≠ Text.trim title) :
    let w := IdWord.ofText text
    ∃ m c e, w.removed? title = some m ∧
      w.displayTitle title = Text.trim ((Cursor.start title).textTo m.start ++ m.stop.rest) ∧
      w.TakesAway m c e ∧ (∀ c' e', w.TakesAway m c' e' → c' = c ∧ e' = e) ∧
      (∃ id, w.identifier? title = some id) ∧
      (w.Reports title c e ↔
        ∀ d : Cursor, d.IsIn title → d.offset < c.offset → ¬ w.HasIdentifier d) ∧
      ((w.leading.find? title).isSome = true → w.Reports title c e) := by
  intro w
  obtain ⟨m, c, e, hremoved, htakes, hc, hleading⟩ :=
    IdWord.exists_removed_of_ne (w := w) htext hfirst hchanged
  obtain ⟨hid, hreports⟩ := IdWord.reports_iff_of_occurs htext hfirst hc htakes.occurs
  exact ⟨m, c, e, hremoved, IdWord.displayTitle_of_removed? hremoved, htakes,
    fun c' e' h' => htakes.unique htext hfirst h', hid, hreports,
    fun hsome => hreports.2 (hleading hsome)⟩

/-- A title that begins with one identifier and ends with another one names its test by the first and
is displayed without it. -/
theorem removed_eq_reported_iff_leading :
    let w := IdWord.ofText " TC ".toList
    let title := "TC-1 like TC-2".toList
    Text.trim " TC ".toList = ['T', 'C'] ∧ Text.isWord 'T' = true ∧
      w.displayTitle title = "like TC-2".toList ∧ Text.trim title = title ∧
      ∃ m c e, w.removed? title = some m ∧ w.TakesAway m c e ∧ w.Reports title c e := by
  intro w title
  have htext : Text.trim " TC ".toList = 'T' :: ['C'] := by decide +kernel
  have hfirst : Text.isWord 'T' = true := by decide
  have hdisplay : w.displayTitle title = "like TC-2".toList := by decide +kernel
  have htrim : Text.trim title = title := by decide +kernel
  have hchanged : w.displayTitle title ≠ Text.trim title := by
    rw [hdisplay, htrim]
    decide +kernel
  have hleading : (w.leading.find? title).isSome = true := by decide +kernel
  obtain ⟨m, c, e, hremoved, -, htakes, -, -, -, hreports⟩ :=
    removed_eq_reported_iff htext hfirst hchanged
  exact ⟨htext, hfirst, hdisplay, htrim, m, c, e, hremoved, htakes, hreports hleading⟩

/-- Not every title is displayed without the identifier that names its test: another one can be taken
away from its end. -/
theorem not_forall_removed_eq_reported :
    ¬ ∀ (text rest title : List Char) (first : Char), Text.trim text = first :: rest →
      Text.isWord first = true →
      (IdWord.ofText text).displayTitle title ≠ Text.trim title →
      ∃ m c e, (IdWord.ofText text).removed? title = some m ∧
        (IdWord.ofText text).TakesAway m c e ∧ (IdWord.ofText text).Reports title c e := by
  intro h
  set w := IdWord.ofText "TC".toList
  set title := "Refund TC-1 like TC-2".toList
  have hchanged : w.displayTitle title ≠ Text.trim title := by decide +kernel
  obtain ⟨m, c, e, hremoved, htakes, r, hr, rfl, -⟩ :=
    h "TC".toList ['C'] title 'T' (by decide +kernel) (by decide) hchanged
  have hfirst : (w.pattern.find? title).map (·.start.offset) = some 7 := by decide +kernel
  have hlast : (w.removed? title).map (·.start.offset) = some 16 := by decide +kernel
  rw [hr] at hfirst
  rw [hremoved] at hlast
  obtain ⟨gap, -, hmoves⟩ := htakes.before
  have hoffset := hmoves.offset
  have hstart := Option.some.inj hfirst
  have hstart' := Option.some.inj hlast
  simp only at hstart hstart'
  omega

end ManifestSync.Scan
