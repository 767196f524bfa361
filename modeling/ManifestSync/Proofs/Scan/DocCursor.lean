import Mathlib.Logic.Relation
import ManifestSync.Proofs.Scan.DocSearch
import ManifestSync.Proofs.Text.Boundary

/-!
# The search for documentation comments, cursor by cursor

A search can also be run with a cursor, an offset that each step moves to where the next one starts.
`docStep?` is one step of it; it cuts the text at the offsets that it computes, and has no result if one
of them is no boundary. From a boundary a step always has a result and leads to a boundary again
(`docStep?_cases`, `exists_docStep?`), so that no cursor which the search comes to is anything else
(`isBoundary_of_reachesCursor`), and a whole run finds the same comments as the search that goes over
the text one character at a time (`docRun_docComments`).
-/

namespace ManifestSync

namespace Text

/-- The offset at which a pattern first stands in a text. -/
def offsetOf? (pattern : List Char) : List Char → Option Nat
  | [] => if pattern.isEmpty then some 0 else none
  | c :: rest =>
    if pattern.isPrefixOf (c :: rest) then some 0
    else (offsetOf? pattern rest).map (c.utf8Size + ·)

end Text

namespace Scan

open Source (Region)
open Text (byteLength dropBytes? slice? offsetOf? IsBoundary)

/-! ## Running a search with a cursor -/

/-- What one step of the search comes to. -/
inductive DocStep where
  /-- There are no more comments. -/
  | done
  /-- There is none up to a cursor. -/
  | skip (cursor : Nat)
  /-- There is one; the search goes on behind it. -/
  | found (doc : DocComment)

/-- The cursor with which the search goes on. -/
def DocStep.next? : DocStep → Option Nat
  | done => none
  | skip cursor => some cursor
  | found doc => some doc.stop

/-- One step of the search from a cursor. There is no result if the text is to be cut at an offset that
is no boundary. -/
def docStep? (map : List Region) (text : List Char) (cursor : Nat) : Option DocStep := do
  let ahead ← dropBytes? cursor text
  match offsetOf? ['/', '*', '*'] ahead with
  | none => return .done
  | some found =>
    let start := cursor + found
    let before ← slice? text 0 start
    let here ← dropBytes? start text
    if !opensComment map start before.reverse || ['/', '*', '*', '/'].isPrefixOf here then
      return .skip (start + 3)
    else
      let behind ← dropBytes? (start + 3) text
      match offsetOf? ['*', '/'] behind with
      | none => return .done
      | some close =>
        let body ← slice? text (start + 3) (start + 3 + close)
        let (summary, sections) := readBody body
        return .found ⟨start, start + 3 + close + 2, summary, sections⟩

/-- The search from a cursor comes to its end and has found some comments on the way. -/
inductive DocRun (map : List Region) (text : List Char) : Nat → List DocComment → Prop
  | done {cursor : Nat} : docStep? map text cursor = some .done → DocRun map text cursor []
  | skip {cursor cursor' : Nat} {docs : List DocComment} :
    docStep? map text cursor = some (.skip cursor') → DocRun map text cursor' docs →
      DocRun map text cursor docs
  | found {cursor : Nat} {doc : DocComment} {docs : List DocComment} :
    docStep? map text cursor = some (.found doc) → DocRun map text doc.stop docs →
      DocRun map text cursor (doc :: docs)

/-- The search from the start of a text comes to a cursor. -/
def ReachesCursor (map : List Region) (text : List Char) : Nat → Prop :=
  Relation.ReflTransGen (fun cursor cursor' =>
    ∃ step, docStep? map text cursor = some step ∧ step.next? = some cursor') 0

/-! ## Searching for the delimiters -/

/-- A close is searched for as the text before it is read. -/
theorem offsetOf?_close (text : List Char) :
    offsetOf? ['*', '/'] text = (untilClose text).map byteLength := by
  induction text with
  | nil => rfl
  | cons c rest ih =>
    have hclose : ['*', '/'].isPrefixOf (c :: rest) = true ↔ c = '*' ∧ rest.head? = some '/' := by
      cases rest with
      | nil => simp [List.isPrefixOf]
      | cons c' rest => simp [List.isPrefixOf, @eq_comm _ c, @eq_comm _ c']
    rw [offsetOf?, untilClose, ih]
    simp only [hclose]
    split_ifs
    · rfl
    · cases untilClose rest <;> rfl

/-- The text before a close stands in front of it. -/
theorem exists_of_untilClose {text body : List Char} (h : untilClose text = some body) :
    ∃ rest, text = body ++ '*' :: '/' :: rest := by
  induction text generalizing body with
  | nil => exact nomatch h
  | cons c text ih =>
    rw [untilClose] at h
    split_ifs at h with hclose
    · obtain ⟨rfl, hslash⟩ := hclose
      obtain ⟨rest, rfl⟩ := List.head?_eq_some_iff.1 hslash
      obtain rfl := Option.some.inj h
      exact ⟨rest, rfl⟩
    · obtain ⟨body', hbody, rfl⟩ := Option.map_eq_some_iff.1 h
      obtain ⟨rest, rfl⟩ := ih hbody
      exact ⟨rest, rfl⟩

variable {map : List Region} {text : List Char} {c d : Cursor}

/-- The comments that are found from a position on. -/
def docsAt (map : List Region) (c : Cursor) : List DocComment :=
  docCommentsFrom map c.behind c.offset c.offset c.rest

/-- Where the search may resume does not matter in front of the position. -/
theorem docCommentsFrom_of_le {before rest : List Char} {offset resume : Nat}
    (h : resume ≤ offset) : docCommentsFrom map before offset resume rest =
      docCommentsFrom map before offset offset rest := by
  induction rest generalizing before offset resume with
  | nil => rfl
  | cons ch rest ih =>
    have hnext : docCommentsFrom map (ch :: before) (offset + ch.utf8Size) resume rest =
        docCommentsFrom map (ch :: before) (offset + ch.utf8Size) offset rest := by
      rw [ih (Nat.le_trans h (Nat.le_add_right _ _)), ih (Nat.le_add_right offset _)]
    rw [docCommentsFrom_cons, docCommentsFrom_cons]
    simp only [Nat.not_lt.2 h, Nat.lt_irrefl, hnext]

/-- The search passes over what is in front of where it resumes. -/
theorem docCommentsFrom_of_moves {w : List Char} (h : c.Moves w d) :
    docCommentsFrom map c.behind c.offset d.offset c.rest = docsAt map d := by
  induction w generalizing c with
  | nil =>
    obtain rfl := h.eq_of_offset_eq h.offset
    rfl
  | cons ch w ih =>
    obtain ⟨offset, before, rest⟩ := c
    obtain rfl : rest = ch :: (w ++ d.rest) := h.rest
    have hlt : offset < d.offset := h.offset_lt (List.cons_ne_nil ch w)
    rw [docCommentsFrom_cons]
    exact (if_pos (.inl hlt)).trans (ih h.of_cons.2)

/-- The search goes on to the first `/**`, and ends if there is none. -/
theorem docsAt_ahead (map : List Region) (c : Cursor) :
    (offsetOf? ['/', '*', '*'] c.rest = none ∧ docsAt map c = []) ∨
    ∃ w d z, c.Moves w d ∧ offsetOf? ['/', '*', '*'] c.rest = some (byteLength w) ∧
      d.rest = '/' :: '*' :: '*' :: z ∧ docsAt map c = docsAt map d := by
  obtain ⟨offset, before, rest⟩ := c
  induction rest generalizing offset before with
  | nil => exact .inl ⟨rfl, rfl⟩
  | cons ch rest ih =>
    rw [offsetOf?]
    split_ifs with hopen
    · obtain ⟨z, hz⟩ := List.isPrefixOf_iff_prefix.1 hopen
      exact .inr ⟨[], _, z, .refl _, rfl, hz.symm, rfl⟩
    · -- The position is passed over.
      have hnext : docsAt map ⟨offset, before, ch :: rest⟩ =
          docsAt map ⟨offset + ch.utf8Size, ch :: before, rest⟩ := by
        unfold docsAt
        rw [docCommentsFrom_cons]
        exact (if_pos (.inr hopen)).trans (docCommentsFrom_of_le (Nat.le_add_right _ _))
      rw [hnext]
      rcases ih (offset + ch.utf8Size) (ch :: before) with ⟨hnone, hdocs⟩ |
        ⟨w, d, z, hmoves, hsome, hz, hdocs⟩
      · exact .inl ⟨by rw [hnone, Option.map_none], hdocs⟩
      · exact .inr ⟨ch :: w, d, z, (Cursor.moves_cons _ _ _ _).trans hmoves,
          by rw [hsome]; rfl, hz, hdocs⟩

/-! ## One step -/

/-- The text behind a position is what is left when the bytes before it are dropped. -/
theorem dropBytes?_of_isIn (hc : c.IsIn text) : dropBytes? c.offset text = some c.rest := by
  rw [hc.offset_eq, ← hc.text_eq, ← Text.byteLength_reverse, Text.dropBytes?_byteLength]

/-- The text that is moved over is the slice between the two positions. -/
theorem slice?_of_moves {w : List Char} (hc : c.IsIn text) (h : c.Moves w d) :
    slice? text c.offset d.offset = some w := by
  rw [h.text_eq hc, h.offset_eq hc, hc.offset_eq, ← Text.byteLength_reverse,
    Text.slice?_byteLength]

/-- A position of a text is at a boundary. -/
theorem isBoundary_of_isIn (hc : c.IsIn text) : IsBoundary text c.offset := by
  rw [← Text.isSome_dropBytes?_iff, dropBytes?_of_isIn hc]
  rfl

section
variable {offset : Nat} {before z : List Char}

/-- The comment that opens at a `/**` in front of a close. -/
def docBefore (offset : Nat) (body : List Char) : DocComment :=
  ⟨offset, offset + 3 + byteLength body + 2, (readBody body).1, (readBody body).2⟩

/-- Whether a `/**` is passed over: it opens no comment, or an empty one. -/
def skips (map : List Region) (offset : Nat) (before z : List Char) : Bool :=
  !opensComment map offset before || z.head? == some '/'

/-- The position behind a `/**`. -/
def behindOpen (offset : Nat) (before z : List Char) : Cursor :=
  ⟨offset + 3, '*' :: '*' :: '/' :: before, z⟩

/-- A `/**` is moved over to the position behind it. -/
theorem moves_behindOpen (offset : Nat) (before z : List Char) :
    Cursor.Moves ⟨offset, before, '/' :: '*' :: '*' :: z⟩ ['/', '*', '*']
      (behindOpen offset before z) := ⟨rfl, rfl, rfl⟩

/-- The two stars of a `/**` are moved over to the position behind it. -/
theorem moves_stars (offset : Nat) (before z : List Char) :
    Cursor.Moves ⟨offset + 1, '/' :: before, '*' :: '*' :: z⟩ ['*', '*']
      (behindOpen offset before z) := ⟨rfl, rfl, rfl⟩

/-- The comments that are found from a `/**` on. -/
theorem docsAt_open : docsAt map ⟨offset, before, '/' :: '*' :: '*' :: z⟩ =
    if skips map offset before z then docsAt map (behindOpen offset before z)
    else (untilClose z).elim [] fun body => docBefore offset body ::
      docCommentsFrom map ('/' :: before) (offset + 1) (docBefore offset body).stop
        ('*' :: '*' :: z) := by
  have hhead : (('*' :: '*' :: z).take 3 == ['*', '*', '/']) = (z.head? == some '/') := by
    cases z <;> simp
  rw [docsAt, docCommentsFrom_cons, hhead]
  refine (if_neg ?_).trans (ite_congr rfl
    (fun _ => docCommentsFrom_of_moves (moves_stars offset before z)) fun _ => rfl)
  simp [List.isPrefixOf]

/-- A step that comes to a `/**`. -/
theorem docStep?_open {v : List Char} (hc : c.IsIn text)
    (hmoves : c.Moves v ⟨offset, before, '/' :: '*' :: '*' :: z⟩)
    (hfirst : offsetOf? ['/', '*', '*'] c.rest = some (byteLength v)) :
    docStep? map text c.offset =
      if skips map offset before z then some (.skip (offset + 3))
      else (untilClose z).elim (some .done) fun body => some (.found (docBefore offset body)) := by
  have hd := hmoves.isIn hc
  have he := (moves_behindOpen offset before z).isIn hd
  have hstart : c.offset + byteLength v = offset := hmoves.offset.symm
  have hbefore : slice? text 0 offset = some before.reverse :=
    slice?_of_moves (Cursor.isIn_start text) hd.moves_start
  have hhead : ['/', '*', '*', '/'].isPrefixOf ('/' :: '*' :: '*' :: z) =
      (z.head? == some '/') := by
    cases z <;> simp [List.isPrefixOf, eq_comm]
  rw [docStep?, dropBytes?_of_isIn hc]
  simp only [Option.bind_eq_bind, Option.bind_some, hfirst, hstart, hbefore]
  rw [dropBytes?_of_isIn hd]
  simp only [Option.bind_some, List.reverse_reverse, hhead]
  refine ite_congr rfl (fun _ => rfl) fun _ => ?_
  rw [show offset + 3 = (behindOpen offset before z).offset from rfl, dropBytes?_of_isIn he]
  simp only [Option.bind_some, behindOpen, offsetOf?_close]
  cases hclose : untilClose z with
  | none => rfl
  | some body =>
    obtain ⟨rest, rfl⟩ := exists_of_untilClose hclose
    have hbody : (behindOpen offset before (body ++ '*' :: '/' :: rest)).Moves body
        ⟨offset + 3 + byteLength body, _, '*' :: '/' :: rest⟩ := ⟨rfl, rfl, rfl⟩
    have hslice := slice?_of_moves he hbody
    simp only [behindOpen] at hslice
    simp only [Option.map_some, hslice, Option.bind_some]
    rfl

end

/-- From a boundary a step has a result, and leads to a boundary further on if the search goes on. It
finds what the search over the characters finds. -/
theorem docStep?_cases (hc : c.IsIn text) :
    (docStep? map text c.offset = some .done ∧ docsAt map c = []) ∨
    ∃ w d, w ≠ [] ∧ c.Moves w d ∧
      ((docStep? map text c.offset = some (.skip d.offset) ∧ docsAt map c = docsAt map d) ∨
      ∃ doc, doc.stop = d.offset ∧ docStep? map text c.offset = some (.found doc) ∧
        docsAt map c = doc :: docsAt map d) := by
  rcases docsAt_ahead map c with ⟨hnone, hdocs⟩ | ⟨v, d, z, hmoves, hfirst, hz, hdocs⟩
  · refine .inl ⟨?_, hdocs⟩
    rw [docStep?, dropBytes?_of_isIn hc, Option.bind_eq_bind, Option.bind_some, hnone]
    rfl
  obtain ⟨offset, before, rest⟩ := d
  obtain rfl : rest = _ := hz
  have hopen := moves_behindOpen offset before z
  rw [docStep?_open hc hmoves hfirst, hdocs, docsAt_open]
  split_ifs
  · exact .inr ⟨_, _, by simp, hmoves.trans hopen, .inl ⟨rfl, rfl⟩⟩
  cases hclose : untilClose z with
  | none => exact .inl ⟨rfl, rfl⟩
  | some body =>
    obtain ⟨rest, rfl⟩ := exists_of_untilClose hclose
    have hclosed : (behindOpen offset before (body ++ '*' :: '/' :: rest)).Moves (body ++ ['*', '/'])
        ⟨(docBefore offset body).stop, (body ++ ['*', '/']).reverse ++ '*' :: '*' :: '/' :: before,
          rest⟩ := by
      refine ⟨rfl, ?_, ?_⟩
      · rw [List.append_assoc]
        rfl
      · rw [Text.byteLength_append, ← Nat.add_assoc]
        rfl
    have hstars := moves_stars offset before (body ++ '*' :: '/' :: rest)
    exact .inr ⟨_, _, by simp, hmoves.trans (hopen.trans hclosed), .inr ⟨_, rfl, rfl,
      congrArg _ (docCommentsFrom_of_moves (hstars.trans hclosed))⟩⟩

/-! ## The whole search -/

/-- A step from a boundary has a result, and no cursor is left on anything but a boundary. -/
theorem exists_docStep? (map : List Region) {cursor : Nat} (h : IsBoundary text cursor) :
    ∃ step, docStep? map text cursor = some step ∧
      ∀ cursor', step.next? = some cursor' → IsBoundary text cursor' := by
  obtain ⟨before, behind, rfl, rfl⟩ := h
  have hc : Cursor.IsIn (before ++ behind) ⟨byteLength before, before.reverse, behind⟩ :=
    ⟨by rw [List.reverse_reverse], (Text.byteLength_reverse before).symm⟩
  rcases @docStep?_cases map _ _ hc with ⟨hdone, -⟩ | ⟨w, d, -, hmoves, hnext⟩
  · exact ⟨_, hdone, nofun⟩
  have hd := isBoundary_of_isIn (hmoves.isIn hc)
  rcases hnext with ⟨hskip, -⟩ | ⟨doc, hstop, hfound, -⟩
  · refine ⟨_, hskip, fun cursor' hcursor => ?_⟩
    obtain rfl := Option.some.inj hcursor
    exact hd
  · refine ⟨_, hfound, fun cursor' hcursor => ?_⟩
    obtain rfl : doc.stop = cursor' := Option.some.inj hcursor
    rwa [hstop]

/-- A step from a boundary leads to a boundary. -/
theorem isBoundary_next {cursor cursor' : Nat} {step : DocStep} (h : IsBoundary text cursor)
    (hstep : docStep? map text cursor = some step) (hnext : step.next? = some cursor') :
    IsBoundary text cursor' := by
  obtain ⟨step', hstep', hbehind⟩ := exists_docStep? map h
  obtain rfl := Option.some.inj (hstep.symm.trans hstep')
  exact hbehind cursor' hnext

/-- Every cursor that the search comes to is a boundary. -/
theorem isBoundary_of_reachesCursor {cursor : Nat} (h : ReachesCursor map text cursor) :
    IsBoundary text cursor := by
  induction h with
  | refl => exact Text.isBoundary_zero text
  | tail _ hstep ih =>
    obtain ⟨step, hstep, hnext⟩ := hstep
    exact isBoundary_next ih hstep hnext

/-- A comment that a search finds ends at a boundary. -/
theorem DocRun.isBoundary_stop {cursor : Nat} {docs : List DocComment}
    (h : DocRun map text cursor docs) (hcursor : IsBoundary text cursor) :
    ∀ doc ∈ docs, IsBoundary text doc.stop := by
  induction h with
  | done => exact nofun
  | skip hstep _ ih => exact ih (isBoundary_next hcursor hstep rfl)
  | found hstep _ ih =>
    have hstop := isBoundary_next hcursor hstep rfl
    exact List.forall_mem_cons.2 ⟨hstop, ih hstop⟩

/-- The search from a position comes to its end, with the comments that are found from there on. -/
theorem docRun_docsAt (map : List Region) (hc : c.IsIn text) :
    DocRun map text c.offset (docsAt map c) := by
  induction hlength : c.rest.length using Nat.strong_induction_on generalizing c with
  | _ length ih =>
    rcases @docStep?_cases map _ _ hc with ⟨hdone, hdocs⟩ | ⟨w, d, hne, hmoves, hnext⟩
    · rw [hdocs]
      exact .done hdone
    -- The search goes on with a shorter rest.
    have hshorter : d.rest.length < length := by
      have hw := List.length_pos_of_ne_nil hne
      rw [← hlength, hmoves.rest, List.length_append]
      omega
    have hrun := ih _ hshorter (hmoves.isIn hc) rfl
    rcases hnext with ⟨hskip, hdocs⟩ | ⟨doc, hstop, hfound, hdocs⟩
    · rw [hdocs]
      exact .skip hskip hrun
    · rw [hdocs]
      exact .found hfound (hstop ▸ hrun)

/-- The search from the start of a text finds its documentation comments. -/
theorem docRun_docComments (map : List Region) (text : List Char) :
    DocRun map text 0 (docComments map text) := docRun_docsAt map (Cursor.isIn_start text)

end Scan

end ManifestSync
