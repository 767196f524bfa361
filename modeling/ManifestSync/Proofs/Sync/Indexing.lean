import Mathlib.Data.List.Find
import ManifestSync.Proofs.Scan.Attribution
import ManifestSync.Proofs.Sync.Scanning

/-!
# The index of a scan

Of the declarations with one key the last one counts, over all sources. `Declares` says where a
declaration stands and what its key and metadata are, and `scan_indexed` reads the index off it.

A scan that succeeds has read every source, and is then a fold over the texts
(`exists_scanned`). In the tests of one source each identifier has its last declaration, and a key of
that source belongs to one identifier, so that taking in the source gives a key the last of its
declarations there (`find?_tests_extract`, `getElem?_index_take`). Source after source the index
therefore answers as a search from the end of all declarations does (`getElem?_index_foldl`). As
these stand in their order (`pairwise_declared`), the search ends at the declaration behind which
there is no other of the key (`find?_reverse_eq_some_iff`).
-/

namespace ManifestSync

open Files (Disk Source)
open Scan (SourceText Located Settings identified located metadataAt? codeDeclarations extract)

/-! ## Declarations over all sources -/

/-- Where a declaration stands: the number of its source, in the order in which sources are listed,
and the offset at which it starts. -/
structure Site where
  source : Nat
  offset : Nat

/-- One site comes before another: in an earlier source, or further up in the same one. -/
def Site.Before (a b : Site) : Prop :=
  a.source < b.source ∨ a.source = b.source ∧ a.offset < b.offset

/-- Of two sites at most one comes before the other. -/
theorem Site.Before.asymm {a b : Site} (h : a.Before b) : ¬ b.Before a := by
  unfold Site.Before at h ⊢
  omega

/-- A source and the text that a disk has for it; bytes that are not UTF-8 are read as U+FFFD. -/
def ReadAs (disk : Disk) (p : Source × SourceText) : Prop :=
  ∃ bytes, disk.read p.1.path = .ok bytes ∧ p.2 = .ofChars (Text.decodeLossy bytes)

/-- At a site there is a declaration in code with an identifier. The source and the identifier give
the key, and the metadata are those of the declaration. -/
def Declares (config : Config) (scanned : List (Source × SourceText)) (site : Site) (key : TestKey)
    (m : Metadata) : Prop :=
  ∃ source s index d id, scanned[site.source]? = some (source, s) ∧
    (codeDeclarations s)[index]? = some d ∧ d.start = site.offset ∧
    config.settings.idWord.identifier? d.title = some id ∧
    key = config.keyScope.key source.relative (String.ofList id) ∧
    metadataAt? config.settings source.relative s
      (Scan.locate config.settings s (Scan.suiteRanges s) d, index) = some m

/-- What a scan makes of the sources with their texts. -/
structure Indexed (config : Config) (scanned : List (Source × SourceText))
    (summary : ScanSummary) : Prop where
  /-- A key is in the index exactly if a source and the identifier of a declaration in it give it. -/
  mem_iff : ∀ key, key ∈ summary.index ↔ ∃ p ∈ scanned, ∃ d ∈ codeDeclarations p.2, ∃ id,
    config.settings.idWord.identifier? d.title = some id ∧
      key = config.keyScope.key p.1.relative (String.ofList id)
  /-- The index has the metadata of the declaration behind which no other one has the key. -/
  last : ∀ key m, summary.index[key]? = some m ↔ ∃ site, Declares config scanned site key m ∧
    ∀ site' m', Declares config scanned site' key m' → ¬ site.Before site'
  /-- The file and the identifier of a test give its key. -/
  keyed : Keyed config.keyScope summary.index
  /-- Every declaration in code without an identifier is counted. -/
  unidentified : summary.unidentified = (scanned.flatMap fun p => codeDeclarations p.2).countP
    fun d => (config.settings.idWord.identifier? d.title).isNone
  /-- Every source is counted. -/
  filesScanned : summary.filesScanned = scanned.length

variable {config : Config}

/-! ## All declarations in their order -/

/-- The metadata of one source and where their declarations stand. -/
def declaredIn (config : Config) (p : (Source × SourceText) × Nat) : List (Site × Metadata) :=
  (located config.settings p.1.2).zipIdx.filterMap fun l =>
    (metadataAt? config.settings p.1.1.relative p.1.2 l).map fun m =>
      (⟨p.2, l.1.declaration.start⟩, m)

/-- The metadata of all sources and where their declarations stand. -/
def declared (config : Config) (scanned : List (Source × SourceText)) : List (Site × Metadata) :=
  scanned.zipIdx.flatMap (declaredIn config)

/-- The metadata of a source are those that its scan identifies. -/
theorem map_snd_declaredIn (p : (Source × SourceText) × Nat) :
    (declaredIn config p).map (·.2) = identified config.settings p.1.1.relative p.1.2 := by
  unfold declaredIn
  rw [List.map_filterMap, Scan.identified_eq]
  simp only [Option.map_map, Function.comp_def, Option.map_id']

/-- Some metadata stand at a site exactly if a declaration is there; its key is theirs. -/
theorem declares_iff {scanned : List (Source × SourceText)} {site : Site} {key : TestKey}
    {m : Metadata} : Declares config scanned site key m ↔
      (site, m) ∈ declared config scanned ∧ config.keyScope.key m.testFile m.testId = key := by
  unfold Declares declared declaredIn
  simp only [List.mem_flatMap, List.mem_filterMap, Option.map_eq_some_iff]
  constructor
  · rintro ⟨source, s, index, d, id, hsource, hd, hstart, hid, rfl, hm⟩
    obtain ⟨id', hid', rfl⟩ := Option.map_eq_some_iff.1 hm
    obtain rfl : id = id' := Option.some.inj (hid.symm.trans hid')
    refine ⟨⟨((source, s), site.source), List.mk_mem_zipIdx_iff_getElem?.2 hsource, _,
      List.mk_mem_zipIdx_iff_getElem?.2 ?_, _, hm, ?_⟩, rfl⟩
    · rw [Scan.located_eq, List.getElem?_map, hd]
      rfl
    · rw [show site = ⟨site.source, site.offset⟩ from rfl, ← hstart]
      rfl
  · rintro ⟨⟨⟨⟨source, s⟩, i⟩, hsource, ⟨l, index⟩, hl, m', hm, hsite⟩, rfl⟩
    obtain ⟨rfl, rfl⟩ := Prod.mk.inj hsite
    have hl' := List.mk_mem_zipIdx_iff_getElem?.1 hl
    rw [Scan.located_eq, List.getElem?_map] at hl'
    obtain ⟨d, hd, rfl⟩ := Option.map_eq_some_iff.1 hl'
    obtain ⟨id, hid, rfl⟩ := Option.map_eq_some_iff.1 hm
    exact ⟨source, s, index, d, id, List.mk_mem_zipIdx_iff_getElem?.1 hsource, hd, rfl, hid, rfl, hm⟩

/-- The declarations stand in the order of their sites. -/
theorem pairwise_declared (config : Config) (scanned : List (Source × SourceText)) :
    (declared config scanned).Pairwise (·.1.Before ·.1) := by
  unfold declared
  refine List.pairwise_flatMap.2 ⟨?_, ?_⟩
  · -- Within a source they stand in the order of the text.
    rintro ⟨⟨source, s⟩, i⟩ -
    have hstart : ((located config.settings s).zipIdx.map Prod.fst).Pairwise
        (·.declaration.start < ·.declaration.start) := by
      rw [List.zipIdx_map_fst]
      exact Scan.pairwise_located config.settings s
    refine (List.pairwise_map.1 hstart).filterMap _ ?_
    intro l l' hlt p hp p' hp'
    obtain ⟨m, -, rfl⟩ := Option.map_eq_some_iff.1 hp
    obtain ⟨m', -, rfl⟩ := Option.map_eq_some_iff.1 hp'
    exact .inr ⟨rfl, hlt⟩
  · -- Those of an earlier source come first.
    have hnumber : (scanned.zipIdx.map Prod.snd).Pairwise (· < ·) := by
      rw [List.zipIdx_map_snd]
      exact List.pairwise_lt_range'
    refine (List.pairwise_map.1 hnumber).imp ?_
    intro source source' hlt p hp p' hp'
    obtain ⟨l, -, hp⟩ := List.mem_filterMap.1 hp
    obtain ⟨l', -, hp'⟩ := List.mem_filterMap.1 hp'
    obtain ⟨m, -, rfl⟩ := Option.map_eq_some_iff.1 hp
    obtain ⟨m', -, rfl⟩ := Option.map_eq_some_iff.1 hp'
    exact .inl hlt

/-- In a list whose items stand in an order, a search from the end finds the item with a property
behind which there is no other. -/
theorem find?_reverse_eq_some_iff {α : Type} {R : α → α → Prop} (hasymm : ∀ a b, R a b → ¬ R b a)
    {l : List α} (h : l.Pairwise R) {p : α → Bool} {a : α} :
    l.reverse.find? p = some a ↔ a ∈ l ∧ p a = true ∧ ∀ b ∈ l, p b = true → ¬ R a b := by
  have hlast : ∀ a, l.reverse.find? p = some a → ∀ b ∈ l, p b = true → b = a ∨ R b a := by
    intro a ha b hb hpb
    obtain ⟨-, back, front, hsplit, hnone⟩ := List.find?_eq_some_iff_append.1 ha
    have hl : l = front.reverse ++ a :: back.reverse := by
      simpa using congrArg List.reverse hsplit
    rw [hl] at hb h
    rcases List.mem_append.1 hb with hb | hb
    · exact .inr ((List.pairwise_append.1 h).2.2 b hb a List.mem_cons_self)
    · rcases List.mem_cons.1 hb with rfl | hb
      · exact .inl rfl
      · have hnot := hnone b (List.mem_reverse.1 hb)
        rw [hpb] at hnot
        exact nomatch hnot
  constructor
  · intro ha
    refine ⟨List.mem_reverse.1 (List.mem_of_find?_eq_some ha), List.find?_some ha, ?_⟩
    intro b hb hpb hab
    rcases hlast a ha b hb hpb with rfl | hba
    · exact hasymm b b hab hab
    · exact hasymm a b hab hba
  · rintro ⟨ha, hpa, hnone⟩
    obtain ⟨b, hb⟩ := Option.isSome_iff_exists.1
      (List.find?_isSome.2 ⟨a, List.mem_reverse.2 ha, hpa⟩)
    rcases hlast b hb a ha hpa with rfl | hab
    · exact hb
    · exact absurd hab (hnone b (List.mem_reverse.1 (List.mem_of_find?_eq_some hb))
        (List.find?_some hb))

/-! ## Taking in the sources -/

/-- Takes in a source with its text. -/
def ScanSummary.take (config : Config) (summary : ScanSummary) (p : Source × SourceText) :
    ScanSummary :=
  summary.add config p.1.relative (extract config.settings p.1.relative p.2)

/-- A scan that succeeds has read every source and taken in its text. -/
theorem exists_scanned {disk : Disk} {found : List Source} {summary summary' : ScanSummary}
    (h : found.foldlM (ScanSummary.addSource config disk) summary = .ok summary') :
    ∃ scanned : List (Source × SourceText), scanned.map (·.1) = found ∧
      (∀ p ∈ scanned, ReadAs disk p) ∧
      summary' = scanned.foldl (ScanSummary.take config) summary := by
  induction found generalizing summary with
  | nil => exact ⟨[], rfl, nofun, (Except.ok.inj h).symm⟩
  | cons source found ih =>
    rw [List.foldlM_cons] at h
    obtain ⟨next, hnext, h⟩ := bind_eq_ok.1 h
    obtain ⟨bytes, hread, hnext⟩ := bind_eq_ok.1 hnext
    obtain rfl := Except.ok.inj hnext
    obtain ⟨scanned, hmap, hreads, hfold⟩ := ih h
    refine ⟨(source, .ofChars (Text.decodeLossy bytes)) :: scanned, ?_, ?_, ?_⟩
    · rw [List.map_cons, hmap]
    · exact List.forall_mem_cons.2 ⟨⟨bytes, onPath_eq_ok.1 hread, rfl⟩, hreads⟩
    · rw [List.foldl_cons]
      exact hfold

/-- The key of a test belongs to one identifier of a file at most. -/
theorem KeyScope.key_eq_iff {scope : KeyScope} {file id : String} {key : TestKey} :
    scope.key file id = key ↔ id = key.id ∧ scope.key file key.id = key := by
  obtain ⟨_, _⟩ := key
  cases scope <;> simp [KeyScope.key, and_comm]

/-- A search from the end of its items finds what a map has for a key. -/
theorem map_find?_reverse_toList {β : Type} (map : Std.TreeMap String β) (k : String) :
    (map.toList.reverse.find? (·.1 == k)).map (·.2) = map[k]? := by
  have hitem : ∀ p, map.toList.reverse.find? (·.1 == k) = some p → map[k]? = some p.2 := by
    intro p hp
    have hkey := List.find?_some hp
    obtain rfl : p.1 = k := beq_iff_eq.1 hkey
    exact Std.TreeMap.mem_toList_iff_getElem?_eq_some.1
      (List.mem_reverse.1 (List.mem_of_find?_eq_some hp))
  cases hp : map.toList.reverse.find? (·.1 == k) with
  | some p => exact (hitem p hp).symm
  | none =>
    symm
    rw [Option.map_none, Option.eq_none_iff_forall_ne_some]
    intro v hv
    have hmem : (k, v) ∈ map.toList := Std.TreeMap.mem_toList_iff_getElem?_eq_some.2 hv
    exact List.find?_eq_none.1 hp _ (List.mem_reverse.2 hmem) (beq_self_eq_true k)

/-- Among the tests of one source a key has the last one that was identified with it. -/
theorem find?_tests_extract (scope : KeyScope) (settings : Settings) (file : String)
    (s : SourceText) (key : TestKey) :
    ((extract settings file s).tests.toList.reverse.find? (scope.key file ·.1 == key)).map (·.2) =
      (identified settings file s).reverse.find? (fun m => scope.key m.testFile m.testId == key) := by
  have hfile : ∀ m ∈ (identified settings file s).reverse,
      (scope.key m.testFile m.testId == key) = (scope.key file m.testId == key) := fun m hm => by
    rw [Scan.testFile_of_mem_identified settings file s (List.mem_reverse.1 hm)]
  rw [List.find?_congr hfile]
  by_cases hkey : scope.key file key.id = key
  · -- The key is that of its identifier in the file.
    have hid : ∀ id, (scope.key file id == key) = (id == key.id) := by
      intro id
      rw [Bool.eq_iff_iff, beq_iff_eq, beq_iff_eq, KeyScope.key_eq_iff, and_iff_left hkey]
    simp only [hid]
    rw [map_find?_reverse_toList, Scan.getElem?_tests_extract]
  · -- It is the key of nothing in the file.
    have hid : ∀ id, (scope.key file id == key) = false := by
      intro id
      rw [beq_eq_false_iff_ne]
      exact fun h => hkey (KeyScope.key_eq_iff.1 h).2
    rw [List.find?_eq_none.2 fun p _ => ne_true_of_eq_false (hid p.1),
      List.find?_eq_none.2 fun m _ => ne_true_of_eq_false (hid m.testId), Option.map_none]

/-- Taking in a source gives a key the last of its declarations there, or else leaves it alone. -/
theorem getElem?_index_take (summary : ScanSummary) (p : Source × SourceText) (key : TestKey) :
    (summary.take config p).index[key]? =
      ((identified config.settings p.1.relative p.2).reverse.find?
        (fun m => config.keyScope.key m.testFile m.testId == key)).or summary.index[key]? := by
  rw [← find?_tests_extract]
  exact Scan.getElem?_foldl_insert (fun test : String × Metadata =>
    config.keyScope.key p.1.relative test.1) (fun test => test.2) _ _ key

/-- After some sources a key has the last of all its declarations. -/
theorem getElem?_index_foldl (scanned : List (Source × SourceText)) (summary : ScanSummary)
    (key : TestKey) :
    (scanned.foldl (ScanSummary.take config) summary).index[key]? =
      ((scanned.flatMap fun p => identified config.settings p.1.relative p.2).reverse.find?
        (fun m => config.keyScope.key m.testFile m.testId == key)).or summary.index[key]? := by
  induction scanned generalizing summary with
  | nil => rfl
  | cons p scanned ih =>
    rw [List.foldl_cons, ih, getElem?_index_take, List.flatMap_cons, List.reverse_append,
      List.find?_append, Option.or_assoc]

/-- The counts of a scan add up source by source. -/
theorem counts_foldl (config : Config) (scanned : List (Source × SourceText))
    (summary : ScanSummary) :
    (scanned.foldl (ScanSummary.take config) summary).filesScanned =
        summary.filesScanned + scanned.length ∧
      (scanned.foldl (ScanSummary.take config) summary).unidentified =
        summary.unidentified + (scanned.flatMap fun p => codeDeclarations p.2).countP
          fun d => (config.settings.idWord.identifier? d.title).isNone := by
  induction scanned generalizing summary with
  | nil => exact ⟨rfl, rfl⟩
  | cons p scanned ih =>
    obtain ⟨hfiles, hunidentified⟩ := ih (summary.take config p)
    constructor
    · rw [List.foldl_cons, hfiles, List.length_cons, Nat.add_comm scanned.length, ← Nat.add_assoc]
      rfl
    · rw [List.foldl_cons, hunidentified, List.flatMap_cons, List.countP_append, ← Nat.add_assoc,
        ← Scan.unidentified_extract_eq_countP config.settings p.1.relative]
      rfl

/-! ## The index -/

/-- The metadata of all sources, without the sites. -/
theorem map_snd_declared (scanned : List (Source × SourceText)) :
    (declared config scanned).map (·.2) =
      scanned.flatMap fun p => identified config.settings p.1.relative p.2 := by
  unfold declared
  calc (scanned.zipIdx.flatMap (declaredIn config)).map (·.2)
      = scanned.zipIdx.flatMap fun p => identified config.settings p.1.1.relative p.1.2 := by
        rw [List.map_flatMap]
        simp only [map_snd_declaredIn]
    _ = (scanned.zipIdx.map Prod.fst).flatMap
          fun p => identified config.settings p.1.relative p.2 := by rw [List.flatMap_map]
    _ = scanned.flatMap fun p => identified config.settings p.1.relative p.2 := by
        rw [List.zipIdx_map_fst]

/-- What the index has for a key after some sources: the last declaration of the key. -/
theorem getElem?_index_eq_some_iff {scanned : List (Source × SourceText)} {key : TestKey}
    {m : Metadata} : (scanned.foldl (ScanSummary.take config) {}).index[key]? = some m ↔
      ∃ site, Declares config scanned site key m ∧
        ∀ site' m', Declares config scanned site' key m' → ¬ site.Before site' := by
  have hempty : (({} : ScanSummary).index)[key]? = none := Std.TreeMap.getElem?_emptyc
  rw [getElem?_index_foldl, hempty, Option.or_none, ← map_snd_declared, ← List.map_reverse,
    List.find?_map, Option.map_eq_some_iff]
  have hfind := fun a : Site × Metadata => find?_reverse_eq_some_iff
    (fun _ _ => Site.Before.asymm) (pairwise_declared config scanned) (a := a)
    (p := fun p => config.keyScope.key p.2.testFile p.2.testId == key)
  simp only [declares_iff]
  constructor
  · rintro ⟨⟨site, m⟩, hsite, rfl⟩
    obtain ⟨hmem, hkey, hlast⟩ := (hfind _).1 hsite
    refine ⟨site, ⟨hmem, beq_iff_eq.1 hkey⟩, fun site' m' h => ?_⟩
    exact hlast (site', m') h.1 (beq_iff_eq.2 h.2)
  · rintro ⟨site, ⟨hmem, hkey⟩, hlast⟩
    refine ⟨(site, m), (hfind _).2 ⟨hmem, beq_iff_eq.2 hkey, fun p hp hpkey => ?_⟩, rfl⟩
    exact hlast p.1 p.2 ⟨hp, beq_iff_eq.1 hpkey⟩

/-- Metadata with a key stand somewhere exactly if a source and the identifier of a declaration in it
give the key. -/
theorem exists_declares_iff {scanned : List (Source × SourceText)} {key : TestKey} :
    (∃ site m, Declares config scanned site key m) ↔ ∃ p ∈ scanned, ∃ d ∈ codeDeclarations p.2,
      ∃ id, config.settings.idWord.identifier? d.title = some id ∧
        key = config.keyScope.key p.1.relative (String.ofList id) := by
  constructor
  · rintro ⟨site, m, source, s, index, d, id, hp, hd, -, hid, hkey, -⟩
    exact ⟨(source, s), List.mem_of_getElem? hp, d, List.mem_of_getElem? hd, id, hid, hkey⟩
  · rintro ⟨⟨source, s⟩, hp, d, hd, id, hid, hkey⟩
    obtain ⟨number, hp⟩ := List.mem_iff_getElem?.1 hp
    obtain ⟨index, hd⟩ := List.mem_iff_getElem?.1 hd
    have hlocated : (Scan.locate config.settings s (Scan.suiteRanges s) d).id = some id := hid
    have hsome : (metadataAt? config.settings source.relative s
        (Scan.locate config.settings s (Scan.suiteRanges s) d, index)).isSome = true := by
      rw [metadataAt?, Option.isSome_map, hlocated]
      rfl
    obtain ⟨m, hm⟩ := Option.isSome_iff_exists.1 hsome
    exact ⟨⟨number, d.start⟩, m, source, s, index, d, id, hp, hd, rfl, hid, hkey, hm⟩

/-- A key is in the index after some sources exactly if metadata with the key stand somewhere. -/
theorem mem_index_iff {scanned : List (Source × SourceText)} {key : TestKey} :
    key ∈ (scanned.foldl (ScanSummary.take config) {}).index ↔
      ∃ site m, Declares config scanned site key m := by
  have hempty : (({} : ScanSummary).index)[key]? = none := Std.TreeMap.getElem?_emptyc
  rw [Std.TreeMap.mem_iff_isSome_getElem?, getElem?_index_foldl, hempty, Option.or_none,
    ← map_snd_declared, ← List.map_reverse, List.find?_map, Option.isSome_map, List.find?_isSome]
  simp only [declares_iff, List.mem_reverse, Function.comp_apply, beq_iff_eq, Prod.exists]

/-- The index of a scan is the image of the tree in which the last declaration of a key counts: the
sources are those of the configuration, in their order, with the texts that the disk has for them. -/
theorem scan_indexed {disk : Disk} {summary : ScanSummary} (h : scan config disk = .ok summary) :
    ∃ scanned : List (Source × SourceText), sources config disk = .ok (scanned.map (·.1)) ∧
      (∀ p ∈ scanned, ReadAs disk p) ∧ Indexed config scanned summary := by
  have hkeyed := keyed_scan h
  unfold scan at h
  obtain ⟨found, hfound, h⟩ := bind_eq_ok.1 h
  obtain ⟨scanned, rfl, hreads, rfl⟩ := exists_scanned h
  obtain ⟨hfiles, hunidentified⟩ := counts_foldl config scanned {}
  exact ⟨scanned, hfound, hreads,
    { mem_iff := fun _ => mem_index_iff.trans exists_declares_iff
      last := fun _ _ => getElem?_index_eq_some_iff
      keyed := hkeyed
      unidentified := hunidentified.trans (Nat.zero_add _)
      filesScanned := hfiles.trans (Nat.zero_add _) }⟩

/-- A directory of two sources, in one of which two declarations have the same identifier, which is
also that of one in the other; a third source has none. -/
def redeclared : List (String × Files.Node) :=
  [("a.spec.ts", .file (Text.utf8 "test('TC-1: a', f);\ntest('TC-2: a', f);".toList)),
    ("b.spec.ts", .file (Text.utf8 "test('TC-1: b', f);\ntest('TC-1: c', f);".toList)),
    ("c.spec.ts", .file (Text.utf8 "test('no number', f);".toList))]

/-- Where identifiers are global the last declaration in the last source is kept. -/
theorem scan_indexed_redeclared :
    let config : Config := { keyScope := .global }
    let disk : Disk := { root := .dir [("tests", .dir redeclared)] }
    ∃ summary scanned, scan config disk = .ok summary ∧
      summary.index[TestKey.mk "" "TC-1"]?.map (·.title) = some "c" ∧
      summary.index[TestKey.mk "" "TC-2"]?.map (·.title) = some "a" ∧
      summary.unidentified = 1 ∧ summary.filesScanned = 3 ∧
      (∀ p ∈ scanned, ReadAs disk p) ∧ Indexed config scanned summary := by
  intro config disk
  -- The merge that sorts a directory does not evaluate, but this one is in order.
  have hsort : Files.sortEntries (Files.listEach config.fileExtensions redeclared) =
      Files.listEach config.fileExtensions redeclared :=
    List.mergeSort_of_pairwise (by decide +kernel)
  have hlisted : Files.listEntries config.fileExtensions redeclared =
      [["a.spec.ts"], ["b.spec.ts"], ["c.spec.ts"]] := by
    unfold Files.listEntries Files.arrange
    rw [hsort]
    decide +kernel
  have hsources : sources config disk = .ok [⟨"./tests/a.spec.ts", "a.spec.ts"⟩,
      ⟨"./tests/b.spec.ts", "b.spec.ts"⟩, ⟨"./tests/c.spec.ts", "c.spec.ts"⟩] := by
    refine sources_eq_ok_iff.2 ⟨by decide +kernel, ?_⟩
    have hleads : disk.Leads true config.testsDir ["tests"] :=
      Files.Disk.place?_eq_some_iff.1 (by decide +kernel)
    have hlist : disk.list config.testsDir = .ok redeclared :=
      Files.Disk.list_eq_ok_iff.2 ⟨by decide +kernel, ["tests"], hleads, rfl⟩
    refine Files.Disk.sourcesIn_eq_ok_iff.2 ⟨redeclared, hlist, ?_⟩
    rw [hlisted]
    decide +kernel
  have hfound : (scan config disk).toOption.map (fun summary =>
      (summary.index[TestKey.mk "" "TC-1"]?.map (·.title),
        summary.index[TestKey.mk "" "TC-2"]?.map (·.title), summary.unidentified,
        summary.filesScanned)) = some (some "c", some "a", 1, 3) := by
    unfold scan
    rw [hsources]
    decide +kernel
  cases hscan : scan config disk with
  | error e =>
    rw [hscan] at hfound
    exact nomatch hfound
  | ok summary =>
    rw [hscan] at hfound
    simp only [Except.toOption, Option.map_some, Option.some.injEq, Prod.mk.injEq] at hfound
    obtain ⟨scanned, -, hreads, hindexed⟩ := scan_indexed hscan
    exact ⟨summary, scanned, rfl, hfound.1, hfound.2.1, hfound.2.2.1, hfound.2.2.2, hreads, hindexed⟩

end ManifestSync
