import ManifestSync.Proofs.Scan.Annotation
import ManifestSync.Proofs.Scan.Declaration
import ManifestSync.Proofs.Scan.Extraction

/-!
# Which test an annotation belongs to

`Belongs` is the rule for one declaration and one annotation: the annotation stands in a comment,
behind the declaration before and not behind this one, near enough to its title, and in the same
disabled suite. The declarations of a text stand in its order (`pairwise_located`), so the search
for the first declaration at or behind an offset finds the one that this rule names
(`owner?_eq_some_iff`), and the annotations that reach a declaration are those which belong to it
(`mem_ownAnnotations`).

Attaching keeps, of each kind, what is attached last (`value?_foldl_attach`). Annotations are
attached in the order of the text, so that is the value of the last one that belongs to the
declaration (`lastValue_annotated`). `identified_attributed` puts the two together for the metadata
that the scan of a text keeps.
-/

namespace ManifestSync.Scan

variable (settings : Settings) (file : String) (s : SourceText)

/-! ## The rule -/

/-- Whether an extent holds an offset; both of its ends are part of it. -/
def Holds (suite : Nat × Nat) (offset : Nat) : Prop :=
  suite.1 ≤ offset ∧ offset ≤ suite.2

/-- Of the extents that hold an offset, the one with the number `n` is the last. Suites are numbered
as they open, so it is the innermost one. -/
def Innermost (suites : List (Nat × Nat)) (n offset : Nat) : Prop :=
  (∃ suite, suites[n]? = some suite ∧ Holds suite offset) ∧
    ∀ n' suite, n < n' → suites[n']? = some suite → ¬ Holds suite offset

/-- The sum of an offset and the window does not wrap for any annotation that counts. -/
def WindowFits : Prop :=
  ∀ a ∈ annotations s.chars, accepts s a = true → a.offset + settings.window.toNat < UInt64.size

/-- The located declaration before the one with a number, whether it has an identifier or not. -/
def preceding? : Nat → Option Located
  | 0 => none
  | index + 1 => (located settings s)[index]?

/-- An annotation belongs to the declaration `l` with the number `index`. -/
structure Belongs (index : Nat) (l : Located) (a : Annotation) : Prop where
  /-- The annotation stands in a comment. -/
  inComment : (s.region a.offset).isComment = true
  /-- It stands behind the start of the declaration before. -/
  behind : ∀ p, preceding? settings s index = some p → p.declaration.start < a.offset
  /-- It does not stand behind the start of the declaration. -/
  before : a.offset ≤ l.declaration.start
  /-- The title of the declaration ends within the window. -/
  near : l.declaration.titleEnd ≤ a.offset + settings.window.toNat
  /-- It is in the same disabled suite as the declaration, or neither is in one. -/
  sameSuite : suiteOf (suiteRanges s) a.offset = suiteOf (suiteRanges s) l.declaration.start

/-- A value is that of the last annotation of a kind with a property, in source order; it is none
if no annotation of the kind has the property. -/
def LastValue (kind : AnnotationKind) (P : Annotation → Prop) : Option String → Prop
  | none => ∀ a ∈ annotations s.chars, a.kind = kind → ¬ P a
  | some value => ∃ a ∈ annotations s.chars, a.kind = kind ∧ P a ∧ String.ofList a.value = value ∧
      ∀ b ∈ annotations s.chars, b.kind = kind → P b → b = a ∨ b.offset < a.offset

/-- What the metadata `m` of the identified declaration `l` with the number `index` say that its
annotations decide. -/
structure Attributed (index : Nat) (l : Located) (m : Metadata) : Prop where
  /-- The bug is that of the last annotation of a bug that belongs to the declaration. -/
  bug : LastValue s .bug (Belongs settings s index l) m.bugId
  /-- The priority is that of the last annotation of a priority that belongs to it. -/
  priority : LastValue s .priority (Belongs settings s index l) m.priority
  /-- The feature is that of the last annotation of a feature that belongs to it. -/
  feature : LastValue s .feature (Belongs settings s index l) m.feature
  /-- It is skipped exactly if it says so itself, lies in a disabled suite, or an annotation that
  belongs to it says so. -/
  skipped : m.isSkipped = true ↔ l.declaration.hasSkipMarker = true ∨
    (∃ suite ∈ suiteRanges s, Holds suite l.declaration.start) ∨
    ∃ a ∈ annotations s.chars, a.kind = .skip ∧ Belongs settings s index l a
  /-- What belongs to it belongs to no other declaration. -/
  alone : ∀ a, Belongs settings s index l a → ∀ other l', (located settings s)[other]? = some l' →
    Belongs settings s other l' a → other = index
  /-- No declaration stands between it and what belongs to it. -/
  passesNone : ∀ a, Belongs settings s index l a → ∀ p ∈ located settings s,
    a.offset ≤ p.declaration.start → l.declaration.start ≤ p.declaration.start
  /-- What belongs to it is inside the same disabled suite, or both are outside of all. -/
  sameSide : ∀ a, Belongs settings s index l a →
    (∃ n, Innermost (suiteRanges s) n a.offset ∧
      Innermost (suiteRanges s) n l.declaration.start) ∨
    ∀ suite ∈ suiteRanges s, ¬ Holds suite a.offset ∧ ¬ Holds suite l.declaration.start

/-- The value of the last annotation with a property is that of the one which no other such
annotation of its kind stands behind. -/
theorem LastValue.eq_some {s : SourceText} {kind : AnnotationKind} {P : Annotation → Prop}
    {value : Option String} {a : Annotation} (h : LastValue s kind P value)
    (ha : a ∈ annotations s.chars) (hkind : a.kind = kind) (hP : P a)
    (hlast : ∀ b ∈ annotations s.chars, b.kind = kind → P b → b.offset ≤ a.offset) :
    value = some (String.ofList a.value) := by
  cases value with
  | none => exact absurd hP (h a ha hkind)
  | some value =>
    obtain ⟨b, hb, hbkind, hPb, rfl, hothers⟩ := h
    rcases hothers a ha hkind hP with rfl | hlt
    · rfl
    · exact absurd (hlast b hb hbkind hPb) (Nat.not_le_of_lt hlt)

/-! ## Disabled suites -/

/-- The numbered extents that are kept for an offset are those which hold it. -/
theorem mem_filter_zipIdx_iff {suites : List (Nat × Nat)} {suite : Nat × Nat} {n offset : Nat} :
    (suite, n) ∈ suites.zipIdx.filter
        (fun ((start, stop), _) => start ≤ offset && offset ≤ stop) ↔
      suites[n]? = some suite ∧ Holds suite offset := by
  rw [List.mem_filter, List.mem_zipIdx_iff_getElem?]
  simp only [Holds, Bool.and_eq_true, decide_eq_true_eq]

/-- The suite of an offset is the innermost one that holds it. -/
theorem innermost_of_suiteOf {suites : List (Nat × Nat)} {offset n : Nat}
    (h : suiteOf suites offset = some n) : Innermost suites n offset := by
  unfold suiteOf at h
  rw [List.getLast?_map] at h
  obtain ⟨⟨suite, n⟩, hlast, rfl⟩ := Option.map_eq_some_iff.1 h
  refine ⟨⟨suite, mem_filter_zipIdx_iff.1 (List.mem_of_getLast? hlast)⟩, ?_⟩
  intro n' suite' hlt hsuite' hholds'
  have hnumbered : suites.zipIdx.Pairwise (·.2 < ·.2) := by
    rw [← List.pairwise_map, List.zipIdx_map_snd]
    exact List.pairwise_lt_range'
  have hsorted := hnumbered.filter fun ((start, stop), _) => start ≤ offset && offset ≤ stop
  have hmem := mem_filter_zipIdx_iff.2 ⟨hsuite', hholds'⟩
  obtain ⟨others, hsplit⟩ := List.getLast?_eq_some_iff.1 hlast
  rw [hsplit] at hsorted hmem
  -- Whatever is kept besides the last one has a smaller number.
  rcases List.mem_append.1 hmem with hother | hsame
  · exact absurd ((List.pairwise_append.1 hsorted).2.2 _ hother _ (List.mem_singleton_self _))
      (Nat.lt_asymm hlt)
  · exact absurd (congrArg Prod.snd (List.mem_singleton.1 hsame)) (Nat.ne_of_gt hlt)

/-- An offset has no suite exactly if none holds it. -/
theorem suiteOf_eq_none_iff {suites : List (Nat × Nat)} {offset : Nat} :
    suiteOf suites offset = none ↔ ∀ suite ∈ suites, ¬ Holds suite offset := by
  unfold suiteOf
  rw [List.getLast?_eq_none_iff, List.map_eq_nil_iff, List.eq_nil_iff_forall_not_mem]
  constructor
  · intro hnone suite hsuite hholds
    obtain ⟨n, hn⟩ := List.mem_iff_getElem?.1 hsuite
    exact hnone (suite, n) (mem_filter_zipIdx_iff.2 ⟨hn, hholds⟩)
  · rintro hnone ⟨suite, n⟩ hmem
    obtain ⟨hn, hholds⟩ := mem_filter_zipIdx_iff.1 hmem
    exact hnone suite (List.mem_of_getElem? hn) hholds

/-- An offset has a suite exactly if some suite holds it. -/
theorem isSome_suiteOf_iff {suites : List (Nat × Nat)} {offset : Nat} :
    (suiteOf suites offset).isSome = true ↔ ∃ suite ∈ suites, Holds suite offset := by
  rw [Option.isSome_iff_ne_none, Ne, suiteOf_eq_none_iff]
  simp only [not_forall, not_not, exists_prop]

/-- Two offsets of one suite are both inside it, and those without a suite are both outside of all. -/
theorem sameSide_of_suiteOf_eq {suites : List (Nat × Nat)} {offset other : Nat}
    (h : suiteOf suites offset = suiteOf suites other) :
    (∃ n, Innermost suites n offset ∧ Innermost suites n other) ∨
      ∀ suite ∈ suites, ¬ Holds suite offset ∧ ¬ Holds suite other := by
  cases hn : suiteOf suites offset with
  | some n => exact .inl ⟨n, innermost_of_suiteOf hn, innermost_of_suiteOf (h.symm.trans hn)⟩
  | none =>
    have hoffset := suiteOf_eq_none_iff.1 hn
    have hother := suiteOf_eq_none_iff.1 (h.symm.trans hn)
    exact .inr fun suite hsuite => ⟨hoffset suite hsuite, hother suite hsuite⟩

/-! ## The declaration of an annotation -/

/-- The located declarations stand in the order of the text, each at an offset of its own. -/
theorem pairwise_located :
    (located settings s).Pairwise (·.declaration.start < ·.declaration.start) := by
  unfold located locatedDeclarations
  rw [List.pairwise_map]
  exact (pairwise_declarations s.chars).filter _

/-- The suite of a located declaration is the one around its start. -/
theorem suite_of_mem_located {l : Located} (hl : l ∈ located settings s) :
    l.suite = suiteOf (suiteRanges s) l.declaration.start := by
  unfold located locatedDeclarations at hl
  obtain ⟨d, -, rfl⟩ := List.mem_map.1 hl
  rfl

/-- The title of a located declaration does not end before the declaration starts. -/
theorem start_le_titleEnd {l : Located} (hl : l ∈ located settings s) :
    l.declaration.start ≤ l.declaration.titleEnd := by
  unfold located locatedDeclarations at hl
  obtain ⟨d, hd, rfl⟩ := List.mem_map.1 hl
  exact Nat.le_of_lt (start_lt_titleEnd_of_mem_declarations (List.mem_filter.1 hd).1)

variable {settings s}

/-- Of two located declarations the one with the smaller number starts before the other. -/
theorem start_lt_of_lt {index other : Nat} {l l' : Located}
    (hl : (located settings s)[index]? = some l) (hl' : (located settings s)[other]? = some l')
    (hlt : index < other) : l.declaration.start < l'.declaration.start := by
  obtain ⟨h, rfl⟩ := List.getElem?_eq_some_iff.1 hl
  obtain ⟨h', rfl⟩ := List.getElem?_eq_some_iff.1 hl'
  exact List.pairwise_iff_getElem.1 (pairwise_located settings s) index other h h' hlt

/-- All earlier declarations start before an offset exactly if the preceding one does. -/
theorem forall_lt_iff_preceding? {index offset : Nat} {l : Located}
    (hl : (located settings s)[index]? = some l) :
    (∀ p, preceding? settings s index = some p → p.declaration.start < offset) ↔
      ∀ j p, j < index → (located settings s)[j]? = some p → p.declaration.start < offset := by
  cases index with
  | zero => simp [preceding?]
  | succ index =>
    constructor
    · intro hpreceding j p hj hp
      have hlt := (List.getElem?_eq_some_iff.1 hl).1
      have hprev := List.getElem?_eq_getElem (l := located settings s) (i := index) (by omega)
      have hstart := hpreceding _ hprev
      -- What stands before the preceding declaration starts before it.
      rcases Nat.lt_succ_iff_lt_or_eq.1 hj with hj | rfl
      · exact Nat.lt_trans (start_lt_of_lt hp hprev hj) hstart
      · exact Option.some.inj (hprev.symm.trans hp) ▸ hstart
    · intro hall p hp
      exact hall index p (Nat.lt_succ_self index) hp

/-- The first declaration at or behind an offset is the one which the offset is not behind, while
it is behind the declaration before. -/
theorem findIdx?_located_eq_some_iff {index offset : Nat} {l : Located}
    (hl : (located settings s)[index]? = some l) :
    (located settings s).findIdx? (offset ≤ ·.declaration.start) = some index ↔
      (∀ p, preceding? settings s index = some p → p.declaration.start < offset) ∧
        offset ≤ l.declaration.start := by
  rw [forall_lt_iff_preceding? hl, List.findIdx?_eq_some_iff_getElem]
  obtain ⟨h, rfl⟩ := List.getElem?_eq_some_iff.1 hl
  constructor
  · rintro ⟨_, hfound, hearlier⟩
    refine ⟨?_, of_decide_eq_true hfound⟩
    intro j p hj hp
    obtain ⟨hlt, rfl⟩ := List.getElem?_eq_some_iff.1 hp
    exact Nat.lt_of_not_le fun hle => hearlier j hj (decide_eq_true hle)
  · rintro ⟨hearlier, hfound⟩
    refine ⟨h, decide_eq_true hfound, ?_⟩
    intro j hj hle
    have hlt := hearlier j _ hj (List.getElem?_eq_getElem (Nat.lt_trans hj h))
    exact Nat.not_le_of_lt hlt (of_decide_eq_true hle)

/-- What ends at or behind an offset ends within the window of the offset exactly if it does so by a
sum that does not wrap. -/
theorem le_reach_iff {offset stop : Nat} (hle : offset ≤ stop) :
    stop ≤ settings.reach offset ↔
      stop ≤ offset + settings.window.toNat ∧ offset + settings.window.toNat < UInt64.size := by
  unfold Settings.reach
  have hwindow : settings.window.toNat < UInt64.size := settings.window.toNat_lt
  rcases Nat.lt_or_ge (offset + settings.window.toNat) UInt64.size with hfits | hwraps
  · rw [Nat.mod_eq_of_lt hfits]
    simp [hfits]
  · -- A sum that wraps is in front of the offset.
    have hback : (offset + settings.window.toNat) % UInt64.size < offset := by
      rcases Nat.lt_or_ge offset UInt64.size with hlt | hge
      · rw [Nat.mod_eq_sub_mod hwraps, Nat.mod_eq_of_lt (by omega)]
        omega
      · exact Nat.lt_of_lt_of_le (Nat.mod_lt _ (by decide)) hge
    constructor <;> intro h <;> omega

/-- The declaration of an annotation is the first one at or behind it, if the title of that one is
near enough and the sum of the offset and the window does not wrap. -/
theorem owner?_eq_some_iff {index offset : Nat} {l : Located}
    (hl : (located settings s)[index]? = some l) :
    owner? settings (located settings s) offset = some index ↔
      ((∀ p, preceding? settings s index = some p → p.declaration.start < offset) ∧
        offset ≤ l.declaration.start) ∧
      l.declaration.titleEnd ≤ offset + settings.window.toNat ∧
        offset + settings.window.toNat < UInt64.size := by
  rw [← findIdx?_located_eq_some_iff hl]
  have hnear : (located settings s).findIdx? (offset ≤ ·.declaration.start) = some index →
      (l.declaration.titleEnd ≤ settings.reach offset ↔
        l.declaration.titleEnd ≤ offset + settings.window.toNat ∧
          offset + settings.window.toNat < UInt64.size) := fun hi => by
    have hbefore := ((findIdx?_located_eq_some_iff hl).1 hi).2
    exact le_reach_iff
      (Nat.le_trans hbefore (start_le_titleEnd settings s (List.mem_of_getElem? hl)))
  unfold owner?
  constructor
  · intro howner
    obtain ⟨i, hi, howner⟩ := Option.bind_eq_some_iff.1 howner
    obtain ⟨nearest, hnearest, howner⟩ := Option.bind_eq_some_iff.1 howner
    split at howner
    case isTrue hreach =>
      obtain rfl := Option.some.inj howner
      obtain rfl := Option.some.inj (hl.symm.trans hnearest)
      exact ⟨hi, (hnear hi).1 hreach⟩
    case isFalse => exact nomatch howner
  · rintro ⟨hi, hreach⟩
    simp only [hi, Option.bind_eq_bind, Option.bind_some, hl, if_pos ((hnear hi).2 hreach)]

variable (settings s)

/-- The number of the declaration which an annotation is attached to, with the annotation. -/
def owned? (a : Annotation) : Option (Nat × Annotation) := do
  let index ← owner? settings (located settings s) a.offset
  let nearest ← (located settings s)[index]?
  if suiteOf (suiteRanges s) a.offset = nearest.suite then some (index, a) else none

/-- The annotations that reach the declaration with a number, in the order in which they are
attached to it. -/
def ownAnnotations (index : Nat) : List Annotation :=
  ((ownedAnnotations settings s (suiteRanges s) (located settings s)).filter (·.1 == index)).map
    (·.2)

/-- The annotations that are attached are those in places where annotations count. -/
theorem ownedAnnotations_eq :
    ownedAnnotations settings s (suiteRanges s) (located settings s) =
      ((annotations s.chars).filter (accepts s)).filterMap (owned? settings s) :=
  rfl

variable {settings s}

/-- An annotation is attached to its declaration if no suite boundary is in between. -/
theorem owned?_eq_some_iff {a : Annotation} {p : Nat × Annotation} :
    owned? settings s a = some p ↔
      p.2 = a ∧ owner? settings (located settings s) a.offset = some p.1 ∧
        ∃ l, (located settings s)[p.1]? = some l ∧ suiteOf (suiteRanges s) a.offset = l.suite := by
  unfold owned?
  constructor
  · intro h
    obtain ⟨index, hindex, h⟩ := Option.bind_eq_some_iff.1 h
    obtain ⟨l, hl, h⟩ := Option.bind_eq_some_iff.1 h
    split at h
    case isTrue hsuite =>
      obtain rfl := Option.some.inj h
      exact ⟨rfl, hindex, l, hl, hsuite⟩
    case isFalse => exact nomatch h
  · obtain ⟨index, b⟩ := p
    rintro ⟨rfl, hindex, l, hl, hsuite⟩
    simp only [hindex, Option.bind_eq_bind, Option.bind_some, hl, if_pos hsuite]

/-- The annotations that reach a declaration are those that count and are attached to it. -/
theorem mem_ownAnnotations_iff_owned? {index : Nat} {a : Annotation} :
    a ∈ ownAnnotations settings s index ↔
      a ∈ annotations s.chars ∧ accepts s a = true ∧ owned? settings s a = some (index, a) := by
  have hmem : a ∈ ownAnnotations settings s index ↔
      ∃ b ∈ (annotations s.chars).filter (accepts s), owned? settings s b = some (index, a) := by
    rw [← List.mem_filterMap, ← ownedAnnotations_eq]
    simp [ownAnnotations, List.mem_map, List.mem_filter]
  rw [hmem, ← and_assoc, ← List.mem_filter]
  constructor
  · rintro ⟨b, hb, howned⟩
    obtain rfl : a = b := (owned?_eq_some_iff.1 howned).1
    exact ⟨hb, howned⟩
  · exact fun ⟨ha, howned⟩ => ⟨a, ha, howned⟩

/-- Annotations other than descriptions count in every comment. -/
theorem accepts_of_kind_ne {a : Annotation} (hkind : a.kind ≠ .description) :
    accepts s a = (s.region a.offset).isComment := by
  unfold accepts
  cases h : a.kind with
  | description => exact absurd h hkind
  | _ => rfl

/-- The annotations that reach a declaration are those that count, for which it is the first one at
or behind them, near enough and in the same suite, if the sum of offset and window does not wrap. -/
theorem mem_ownAnnotations_iff {index : Nat} {l : Located} {a : Annotation}
    (hl : (located settings s)[index]? = some l) :
    a ∈ ownAnnotations settings s index ↔
      a ∈ annotations s.chars ∧ accepts s a = true ∧
      ((∀ p, preceding? settings s index = some p → p.declaration.start < a.offset) ∧
        a.offset ≤ l.declaration.start) ∧
      (l.declaration.titleEnd ≤ a.offset + settings.window.toNat ∧
        a.offset + settings.window.toNat < UInt64.size) ∧
      suiteOf (suiteRanges s) a.offset = l.suite := by
  rw [mem_ownAnnotations_iff_owned?]
  refine and_congr_right fun _ => and_congr_right fun _ => ?_
  constructor
  · intro howned
    obtain ⟨-, howner, l', hl', hsame⟩ := owned?_eq_some_iff.1 howned
    obtain rfl := Option.some.inj (hl.symm.trans hl')
    obtain ⟨hfirst, hnear⟩ := (owner?_eq_some_iff hl).1 howner
    exact ⟨hfirst, hnear, hsame⟩
  · rintro ⟨hfirst, hnear, hsame⟩
    have howner := (owner?_eq_some_iff hl).2 ⟨hfirst, hnear⟩
    exact owned?_eq_some_iff.2 ⟨rfl, howner, l, hl, hsame⟩

/-- The annotations that reach a declaration are those which belong to it. -/
theorem mem_ownAnnotations {index : Nat} {l : Located} {a : Annotation}
    (hl : (located settings s)[index]? = some l) (hkind : a.kind ≠ .description)
    (hwindow : WindowFits settings s) :
    a ∈ ownAnnotations settings s index ↔
      a ∈ annotations s.chars ∧ Belongs settings s index l a := by
  have hsuite := suite_of_mem_located settings s (List.mem_of_getElem? hl)
  rw [mem_ownAnnotations_iff hl]
  constructor
  · rintro ⟨ha, haccepts, ⟨hbehind, hbefore⟩, ⟨hnear, -⟩, hsame⟩
    exact ⟨ha, (accepts_of_kind_ne hkind).symm.trans haccepts, hbehind, hbefore, hnear,
      hsame.trans hsuite⟩
  · rintro ⟨ha, hbelongs⟩
    have haccepts := (accepts_of_kind_ne hkind).trans hbelongs.inComment
    exact ⟨ha, haccepts, ⟨hbelongs.behind, hbelongs.before⟩,
      ⟨hbelongs.near, hwindow a ha haccepts⟩, hbelongs.sameSuite.trans hsuite.symm⟩

variable (settings s)

/-- The annotations that reach a declaration are attached in the order of the text. -/
theorem pairwise_ownAnnotations (index : Nat) :
    (ownAnnotations settings s index).Pairwise (·.offset ≤ ·.offset) := by
  unfold ownAnnotations
  rw [List.pairwise_map, ownedAnnotations_eq]
  refine List.Pairwise.filter _ (((pairwise_annotations s.chars).filter _).filterMap _ ?_)
  intro a b hle p hp q hq
  rw [(owned?_eq_some_iff.1 hp).1, (owned?_eq_some_iff.1 hq).1]
  exact hle

/-! ## Attaching -/

namespace Annotated

/-- The value found for a kind; that a test is skipped has no value. -/
def value? (found : Annotated) : AnnotationKind → Option (List Char)
  | .bug => found.bug
  | .priority => found.priority
  | .feature => found.feature
  | .description => found.description
  | .skip => none

/-- Attaching an annotation replaces the value of its kind and no other. -/
theorem value?_attach (found : Annotated) (a : Annotation) {kind : AnnotationKind}
    (hkind : kind ≠ .skip) :
    (found.attach a).value? kind =
      if a.kind = kind then if a.value.isEmpty then none else some a.value
      else found.value? kind := by
  obtain ⟨own, offset, value⟩ := a
  cases own <;> cases kind <;> first | rfl | exact absurd rfl hkind

/-- Of the annotations of a kind that are attached one after another, the last one counts. -/
theorem value?_foldl_attach (l : List Annotation) (found : Annotated) {kind : AnnotationKind}
    (hkind : kind ≠ .skip) :
    (l.foldl attach found).value? kind =
      ((l.reverse.find? (·.kind == kind)).map fun a =>
        if a.value.isEmpty then none else some a.value).getD (found.value? kind) := by
  induction l generalizing found with
  | nil => rfl
  | cons a l ih =>
    -- The first annotation is what is found if none behind it is of the kind.
    rw [List.foldl_cons, ih, List.reverse_cons, List.find?_append, value?_attach found a hkind]
    cases l.reverse.find? (·.kind == kind) with
    | some b => rfl
    | none => by_cases h : a.kind = kind <;> simp [h]

/-- A test is skipped once an annotation that says so is attached. -/
theorem skip_foldl_attach (l : List Annotation) (found : Annotated) :
    (l.foldl attach found).skip = true ↔ found.skip = true ∨ ∃ a ∈ l, a.kind = .skip := by
  induction l generalizing found with
  | nil => simp
  | cons a l ih =>
    have hattach : (found.attach a).skip = true ↔ found.skip = true ∨ a.kind = .skip := by
      obtain ⟨kind, offset, value⟩ := a
      cases kind <;> simp [attach]
    rw [List.foldl_cons, ih, hattach]
    simp only [List.mem_cons, exists_eq_or_imp, or_assoc]

end Annotated

/-- What the annotations of a declaration say is what is found when those that reach it are attached
one after another. -/
theorem annotated_eq_foldl (index : Nat) :
    annotated (ownedAnnotations settings s (suiteRanges s) (located settings s)) index =
      (ownAnnotations settings s index).foldl Annotated.attach {} := by
  unfold annotated ownAnnotations
  rw [List.foldl_map]

/-- The annotation of a kind that decides for the declaration with a number: of those that reach it,
the one attached last. -/
def deciding? (index : Nat) (kind : AnnotationKind) : Option Annotation :=
  (ownAnnotations settings s index).reverse.find? (·.kind == kind)

variable {settings s}

/-- If an annotation decides, it reaches the declaration, and no other one of its kind that does so
stands behind it. -/
theorem deciding?_eq_some_iff {index : Nat} {kind : AnnotationKind} {a : Annotation} :
    deciding? settings s index kind = some a ↔
      a ∈ ownAnnotations settings s index ∧ a.kind = kind ∧
      ∀ b ∈ ownAnnotations settings s index, b.kind = kind → b.offset ≤ a.offset := by
  have hlast : ∀ {a}, deciding? settings s index kind = some a →
      a ∈ ownAnnotations settings s index ∧ a.kind = kind ∧
      ∀ b ∈ ownAnnotations settings s index, b.kind = kind → b.offset ≤ a.offset := by
    intro a ha
    obtain ⟨hkind, later, earlier, hsplit, hlater⟩ := List.find?_eq_some_iff_append.1 ha
    refine ⟨List.mem_reverse.1 (List.mem_of_find?_eq_some ha), beq_iff_eq.1 hkind, ?_⟩
    intro b hb hbkind
    have hsorted := List.pairwise_reverse.2 (pairwise_ownAnnotations settings s index)
    rw [← List.mem_reverse, hsplit] at hb
    rw [hsplit] at hsorted
    rcases List.mem_append.1 hb with hb | hb
    · -- No annotation of the kind is attached behind the one found.
      have hother := hlater b hb
      simp [hbkind] at hother
    · rcases List.mem_cons.1 hb with rfl | hb
      · exact Nat.le_refl _
      · exact List.rel_of_pairwise_cons (List.pairwise_append.1 hsorted).2.1 hb
  refine ⟨hlast, fun ⟨hown, hkind, hlatest⟩ => ?_⟩
  obtain ⟨b, hb⟩ : ∃ b, deciding? settings s index kind = some b :=
    Option.isSome_iff_exists.1
      (List.find?_isSome.2 ⟨a, List.mem_reverse.2 hown, beq_iff_eq.2 hkind⟩)
  obtain ⟨hown', hkind', hlatest'⟩ := hlast hb
  -- Annotations of different kinds can share an offset, those of one kind cannot.
  rw [hb, eq_of_mem_annotations (mem_ownAnnotations_iff_owned?.1 hown').1
    (mem_ownAnnotations_iff_owned?.1 hown).1 (hkind'.trans hkind.symm)
    (Nat.le_antisymm (hlatest b hown' hkind') (hlatest' a hown hkind))]

/-- No annotation of a kind decides exactly if none reaches the declaration. -/
theorem deciding?_eq_none_iff {index : Nat} {kind : AnnotationKind} :
    deciding? settings s index kind = none ↔
      ∀ a ∈ ownAnnotations settings s index, a.kind ≠ kind := by
  simp [deciding?, List.find?_eq_none]

/-- The value found for a kind is that of the annotation which decides, unless it is empty. -/
theorem value?_annotated_eq_bind {index : Nat} {kind : AnnotationKind} (hskip : kind ≠ .skip) :
    (annotated (ownedAnnotations settings s (suiteRanges s) (located settings s)) index).value? kind =
      (deciding? settings s index kind).bind fun a =>
        if a.value.isEmpty then none else some a.value := by
  have hempty : ({} : Annotated).value? kind = none := by cases kind <;> rfl
  rw [annotated_eq_foldl, Annotated.value?_foldl_attach _ _ hskip, hempty]
  change ((deciding? settings s index kind).map _).getD none = _
  cases deciding? settings s index kind <;> rfl

/-- The value found for a kind that has one is that of the annotation which decides. -/
theorem value?_annotated {index : Nat} {kind : AnnotationKind} (hskip : kind ≠ .skip)
    (hdescription : kind ≠ .description) :
    (annotated (ownedAnnotations settings s (suiteRanges s) (located settings s)) index).value? kind =
      (deciding? settings s index kind).map (·.value) := by
  rw [value?_annotated_eq_bind hskip]
  cases hlast : deciding? settings s index kind with
  | none => rfl
  | some a =>
    obtain ⟨hown, rfl, -⟩ := deciding?_eq_some_iff.1 hlast
    -- An empty value would count as none.
    have hvalue : a.value ≠ [] :=
      value_ne_nil_of_mem_annotations (mem_ownAnnotations_iff_owned?.1 hown).1 hskip hdescription
    simp [hvalue]

/-- The value found for a kind is that of the last annotation which belongs to the declaration. -/
theorem lastValue_annotated {index : Nat} {l : Located} {kind : AnnotationKind}
    (hl : (located settings s)[index]? = some l) (hskip : kind ≠ .skip)
    (hdescription : kind ≠ .description)
    (hwindow : WindowFits settings s) :
    LastValue s kind (Belongs settings s index l)
      (((annotated (ownedAnnotations settings s (suiteRanges s) (located settings s))
        index).value? kind).map String.ofList) := by
  have hmem : ∀ a, a.kind = kind → (a ∈ ownAnnotations settings s index ↔
      a ∈ annotations s.chars ∧ Belongs settings s index l a) := by
    rintro a rfl
    exact mem_ownAnnotations hl hdescription hwindow
  rw [value?_annotated hskip hdescription]
  cases hlast : deciding? settings s index kind with
  | none =>
    intro a ha hkind hbelongs
    exact deciding?_eq_none_iff.1 hlast a ((hmem a hkind).2 ⟨ha, hbelongs⟩) hkind
  | some a =>
    obtain ⟨hown, hkind, hlatest⟩ := deciding?_eq_some_iff.1 hlast
    obtain ⟨ha, hbelongs⟩ := (hmem a hkind).1 hown
    refine ⟨a, ha, hkind, hbelongs, rfl, ?_⟩
    intro b hb hbkind hbbelongs
    have hle := hlatest b ((hmem b hbkind).2 ⟨hb, hbbelongs⟩) hbkind
    rcases Nat.lt_or_eq_of_le hle with hlt | heq
    · exact .inr hlt
    · exact .inl (eq_of_mem_annotations hb ha (hbkind.trans hkind.symm) heq)

/-- A skip is found exactly if an annotation that reaches the declaration says so. -/
theorem skip_annotated {index : Nat} :
    (annotated (ownedAnnotations settings s (suiteRanges s) (located settings s)) index).skip =
        true ↔ ∃ a ∈ ownAnnotations settings s index, a.kind = .skip := by
  rw [annotated_eq_foldl, Annotated.skip_foldl_attach]
  exact or_iff_right nofun

/-- A skip is found exactly if an annotation that belongs to the declaration says so. -/
theorem skip_annotated_iff {index : Nat} {l : Located}
    (hl : (located settings s)[index]? = some l)
    (hwindow : WindowFits settings s) :
    (annotated (ownedAnnotations settings s (suiteRanges s) (located settings s)) index).skip =
        true ↔
      ∃ a ∈ annotations s.chars, a.kind = .skip ∧ Belongs settings s index l a := by
  rw [skip_annotated]
  constructor
  · rintro ⟨a, ha, hkind⟩
    obtain ⟨ha, hbelongs⟩ := (mem_ownAnnotations hl (hkind ▸ nofun) hwindow).1 ha
    exact ⟨a, ha, hkind, hbelongs⟩
  · rintro ⟨a, ha, hkind, hbelongs⟩
    exact ⟨a, (mem_ownAnnotations hl (hkind ▸ nofun) hwindow).2 ⟨ha, hbelongs⟩, hkind⟩

/-! ## The metadata of a declaration -/

/-- The numbered declarations are those before a declaration, itself, and those behind it. -/
theorem zipIdx_located {index : Nat} {l : Located} (hl : (located settings s)[index]? = some l) :
    (located settings s).zipIdx = ((located settings s).take index).zipIdx ++
      (l, index) :: ((located settings s).drop (index + 1)).zipIdx (index + 1) := by
  obtain ⟨h, rfl⟩ := List.getElem?_eq_some_iff.1 hl
  have hsplit : (located settings s).take index ++ (located settings s)[index] ::
      (located settings s).drop (index + 1) = located settings s := by
    rw [← List.drop_eq_getElem_cons h, List.take_append_drop]
  have hlength : ((located settings s).take index).length = index :=
    List.length_take_of_le (Nat.le_of_lt h)
  calc (located settings s).zipIdx
      = ((located settings s).take index ++ (located settings s)[index] ::
          (located settings s).drop (index + 1)).zipIdx := by rw [hsplit]
    _ = _ := by rw [List.zipIdx_append, hlength, Nat.zero_add, List.zipIdx_cons]

/-- What the metadata of an identified declaration say of its annotations. -/
theorem attributed_metadataOf {index : Nat} {l : Located} (docs : List DocComment) (id : List Char)
    (hl : (located settings s)[index]? = some l)
    (hwindow : WindowFits settings s) :
    Attributed settings s index l (metadataOf settings file s docs l id
      (annotated (ownedAnnotations settings s (suiteRanges s) (located settings s)) index)) where
  bug := lastValue_annotated hl nofun nofun hwindow
  priority := lastValue_annotated hl nofun nofun hwindow
  feature := lastValue_annotated hl nofun nofun hwindow
  skipped := by
    have hsuite := suite_of_mem_located settings s (List.mem_of_getElem? hl)
    rw [← skip_annotated_iff hl hwindow, ← isSome_suiteOf_iff, ← hsuite]
    simp only [metadataOf, Bool.or_eq_true, or_assoc, or_comm]
  alone := by
    intro a hbelongs other l' hl' hother
    -- Both are the first declaration at or behind the annotation.
    have hfirst := (findIdx?_located_eq_some_iff hl).2 ⟨hbelongs.behind, hbelongs.before⟩
    have hfirst' := (findIdx?_located_eq_some_iff hl').2 ⟨hother.behind, hother.before⟩
    exact Option.some.inj (hfirst'.symm.trans hfirst)
  passesNone := by
    intro a hbelongs p hp hle
    obtain ⟨j, hj⟩ := List.mem_iff_getElem?.1 hp
    have hearlier := (forall_lt_iff_preceding? hl).1 hbelongs.behind
    rcases Nat.lt_trichotomy j index with hlt | rfl | hgt
    · exact absurd hle (Nat.not_le_of_lt (hearlier j p hlt hj))
    · exact Nat.le_of_eq (congrArg (·.declaration.start) (Option.some.inj (hl.symm.trans hj)))
    · exact Nat.le_of_lt (start_lt_of_lt hl hj hgt)
  sameSide := fun a hbelongs => sameSide_of_suiteOf_eq hbelongs.sameSuite

/-- Annotations go to the right test: the metadata of every identified declaration are found at its
place, their bug, priority and feature are the values of the last annotations that belong to it, and
the test is skipped if it says so itself, lies in a disabled suite or an annotation that belongs to
it says so. No annotation belongs to two declarations, passes over one or is on the other side of a
disabled suite. The scan keeps these metadata unless a later declaration has the same identifier. -/
theorem identified_attributed {index : Nat} {l : Located} {id : List Char}
    (hl : (located settings s)[index]? = some l) (hid : l.id = some id)
    (hwindow : WindowFits settings s) :
    ∃ m, (identified settings file s)[((located settings s).take index).countP (·.id.isSome)]? =
        some m ∧
      m.testId = String.ofList id ∧ Attributed settings s index l m ∧
      ((∀ other ∈ (located settings s).drop (index + 1), other.id ≠ some id) →
        (extract settings file s).tests[String.ofList id]? = some m) := by
  obtain ⟨m, hm, hname, hattributed⟩ : ∃ m, metadataAt? settings file s (l, index) = some m ∧
      m.testId = String.ofList id ∧ Attributed settings s index l m :=
    ⟨_, by rw [metadataAt?, hid, Option.map_some], rfl, attributed_metadataOf file _ id hl hwindow⟩
  have hsplit := identified_eq settings file s
  rw [zipIdx_located hl, List.filterMap_append, List.filterMap_cons_some hm] at hsplit
  refine ⟨m, ?_, hname, hattributed, ?_⟩
  · rw [hsplit, ← length_filterMap_metadataAt? settings file s _ 0,
      List.getElem?_append_right (Nat.le_refl _), Nat.sub_self, List.getElem?_cons_zero]
  · intro hlast
    -- Of the tests with this identifier the scan keeps the last one.
    have hlater : ∀ m' ∈ (((located settings s).drop (index + 1)).zipIdx (index + 1)).filterMap
        (metadataAt? settings file s), m'.testId ≠ String.ofList id := by
      intro m' hm' hsame
      obtain ⟨other, hother, id', hid', hname'⟩ := exists_id_of_mem_filterMap settings file s hm'
      exact hlast other hother (hid'.trans (congrArg some
        (String.ofList_injective (hname'.symm.trans hsame))))
    rw [getElem?_tests_extract, hsplit, List.reverse_append, List.reverse_cons, List.append_assoc,
      List.find?_append, List.find?_eq_none.2 ?_]
    · simp [hname]
    · intro m' hm'
      simpa using hlater m' (List.mem_reverse.1 hm')

/-- Of two bugs before a test the last one counts; the first stands before an unidentified test. -/
theorem identified_attributed_behind_unidentified :
    let settings : Settings := ⟨⟨"TC".toList⟩, 500⟩
    let s : SourceText :=
      .ofChars "// @bug A-1\nit('x');// @bug B-2\n// @jira C-3\nit('TC-1')".toList
    let l : Located := ⟨⟨45, 54, .it, none, "TC-1".toList⟩, some "TC-1".toList, none, none⟩
    (located settings s)[1]? = some l ∧
      WindowFits settings s ∧
      ∃ m, (extract settings "a.spec.ts" s).tests["TC-1"]? = some m ∧ m.testId = "TC-1" ∧
        m.bugId = some "C-3" ∧ Attributed settings s 1 l m := by
  intro settings s l
  have hl : (located settings s)[1]? = some l := by decide +kernel
  have hprevious : preceding? settings s 1 =
      some ⟨⟨12, 18, .it, none, "x".toList⟩, none, none, none⟩ := by decide +kernel
  -- The merge that puts the annotations in order does not evaluate; their members do.
  have hmem : ∀ a, a ∈ annotations s.chars ↔
      a ∈ AnnotationKind.all.flatMap (annotationsOf s.chars) :=
    fun _ => List.mem_mergeSort
  have hwindow : WindowFits settings s := by
    unfold WindowFits
    simp only [hmem]
    decide +kernel
  have hbelongs : Belongs settings s 1 l ⟨.bug, 35, "C-3".toList⟩ :=
    { inComment := by decide +kernel
      behind := fun p hp => Option.some.inj (hprevious.symm.trans hp) ▸ by decide
      before := by decide
      near := by decide
      sameSuite := by decide +kernel }
  have hlast : ∀ b ∈ annotations s.chars, b.kind = .bug → b.offset ≤ 35 := by
    simp only [hmem]
    decide +kernel
  obtain ⟨m, -, hname, hattributed, hkept⟩ := identified_attributed "a.spec.ts" hl rfl hwindow
  refine ⟨hl, hwindow, m, hkept (by decide +kernel), hname, ?_, hattributed⟩
  exact hattributed.bug.eq_some ((hmem _).2 (by decide +kernel)) rfl hbelongs
    fun b hb hkind _ => hlast b hb hkind

end ManifestSync.Scan
