import ManifestSync.Scan.Extraction

/-!
# What extraction counts

Each declaration that extraction locates is accounted for once: under its identifier among the
tests, or in the number of unidentified declarations. Of several tests with one identifier the last
one is kept (`getElem?_tests_extract`).
-/

namespace ManifestSync.Scan

/-- Values that are inserted one after another, each under a key of its own: for a key the last one
counts. -/
theorem getElem?_foldl_insert {α κ β : Type} [Ord κ] [Std.TransOrd κ] [Std.LawfulEqOrd κ]
    [BEq κ] [LawfulBEq κ] (key : α → κ) (value : α → β) (l : List α) (map : Std.TreeMap κ β)
    (k : κ) :
    (l.foldl (fun map a => map.insert (key a) (value a)) map)[k]? =
      ((l.reverse.find? (key · == k)).map value).or map[k]? := by
  induction l generalizing map with
  | nil => rfl
  | cons a l ih =>
    rw [List.foldl_cons, ih, List.reverse_cons, List.find?_append, Option.map_or, Option.or_assoc]
    congr 1
    rw [Std.TreeMap.getElem?_insert]
    by_cases hk : key a = k
    · subst hk
      simp
    · simp [hk]

variable (settings : Settings) (file : String) (s : SourceText)

/-- The test of an identifier is the last one that was identified by it. -/
theorem getElem?_tests_extract (name : String) :
    (extract settings file s).tests[name]? =
      (identified settings file s).reverse.find? (·.testId == name) := by
  have h := getElem?_foldl_insert (·.testId) id (identified settings file s) {} name
  rwa [Std.TreeMap.getElem?_emptyc, Option.or_none, Option.map_id] at h

/-- A source has a test of an identifier exactly if one of its declarations is identified by it. -/
theorem mem_tests_extract {id : String} :
    id ∈ (extract settings file s).tests ↔ ∃ m ∈ identified settings file s, m.testId = id := by
  rw [Std.TreeMap.mem_iff_isSome_getElem?, getElem?_tests_extract, List.find?_isSome]
  simp only [List.mem_reverse, beq_iff_eq]

/-- The tests of a source have its file. -/
theorem testFile_of_mem_identified {m : Metadata} (h : m ∈ identified settings file s) :
    m.testFile = file := by
  unfold identified at h
  obtain ⟨⟨l, index⟩, -, h⟩ := List.mem_filterMap.1 h
  obtain ⟨id, -, rfl⟩ := Option.map_eq_some_iff.1 h
  rfl

/-- A test of a source is one that was identified, and found under its identifier. -/
theorem mem_identified_of_mem_tests_extract {id : String} {m : Metadata}
    (h : (id, m) ∈ (extract settings file s).tests.toList) :
    m ∈ identified settings file s ∧ m.testId = id := by
  rw [Std.TreeMap.mem_toList_iff_getElem?_eq_some, getElem?_tests_extract] at h
  have hid := List.find?_some h
  exact ⟨List.mem_reverse.1 (List.mem_of_find?_eq_some h), beq_iff_eq.1 hid⟩

/-- A test of a source is found under its identifier, with the file of the source. -/
theorem named_of_mem_tests_extract {id : String} {m : Metadata}
    (h : (id, m) ∈ (extract settings file s).tests.toList) : m.testId = id ∧ m.testFile = file := by
  obtain ⟨hmem, hid⟩ := mem_identified_of_mem_tests_extract settings file s h
  exact ⟨hid, testFile_of_mem_identified settings file s hmem⟩

/-- The declarations of a text that start in code, in the order of the text. -/
def codeDeclarations : List Declaration :=
  (declarations s.chars).filter fun d => s.region d.start == .code

/-- The declarations that extraction locates. -/
def located : List Located := locatedDeclarations settings s (suiteRanges s)

/-- They are the ones in code. -/
theorem located_eq :
    located settings s = (codeDeclarations s).map (locate settings s (suiteRanges s)) :=
  rfl

/-- The metadata of a numbered declaration, if it has an identifier. -/
def metadataAt? (l : Located × Nat) : Option Metadata :=
  l.1.id.map fun id => metadataOf settings file s (docComments s.regions s.chars) l.1 id
    (annotated (ownedAnnotations settings s (suiteRanges s) (located settings s)) l.2)

/-- The metadata of a source are those of its numbered declarations. -/
theorem identified_eq :
    identified settings file s =
      (located settings s).zipIdx.filterMap (metadataAt? settings file s) :=
  rfl

/-- The metadata of a source are those of a declaration with an identifier. -/
theorem exists_of_mem_identified {m : Metadata} (h : m ∈ identified settings file s) :
    ∃ index l, (located settings s)[index]? = some l ∧
      metadataAt? settings file s (l, index) = some m := by
  rw [identified_eq] at h
  obtain ⟨⟨l, index⟩, hl, hm⟩ := List.mem_filterMap.1 h
  exact ⟨index, l, List.mem_zipIdx_iff_getElem?.1 hl, hm⟩

/-- The last numbered declaration with an identifier. -/
def lastNamed? (name : String) : Option (Located × Nat) :=
  (located settings s).zipIdx.reverse.find? fun (l, _) => l.id.map String.ofList == some name

/-- The test of an identifier has the metadata of the last declaration with that identifier. -/
theorem getElem?_tests_extract_eq_bind (name : String) :
    (extract settings file s).tests[name]? =
      (lastNamed? settings s name).bind (metadataAt? settings file s) := by
  have hnamed : ∀ p : Located × Nat,
      (metadataAt? settings file s p).any (·.testId == name) =
        (p.1.id.map String.ofList == some name) := by
    intro p
    rw [metadataAt?]
    cases p.1.id <;> rfl
  rw [getElem?_tests_extract, identified_eq, ← List.filterMap_reverse, List.find?_filterMap]
  simp only [hnamed]
  rfl

/-- The metadata of numbered declarations have the identifiers of these. -/
theorem map_testId_filterMap (l : List Located) (n : Nat) :
    ((l.zipIdx n).filterMap (metadataAt? settings file s)).map (·.testId) =
      l.filterMap fun l => l.id.map String.ofList := by
  have hid : ∀ p : Located × Nat,
      (metadataAt? settings file s p).map (·.testId) = p.1.id.map String.ofList :=
    fun _ => Option.map_map _ _ _
  calc ((l.zipIdx n).filterMap (metadataAt? settings file s)).map (·.testId)
      = (l.zipIdx n).filterMap fun p => p.1.id.map String.ofList := by
        rw [List.map_filterMap]
        exact congrArg (List.filterMap · _) (funext hid)
    _ = ((l.zipIdx n).map Prod.fst).filterMap fun l => l.id.map String.ofList := by
        rw [List.filterMap_map]
        rfl
    _ = l.filterMap fun l => l.id.map String.ofList := by rw [List.zipIdx_map_fst]

/-- The number of metadata of some declarations is the number of those with an identifier. -/
theorem length_filterMap_metadataAt? (l : List Located) (n : Nat) :
    ((l.zipIdx n).filterMap (metadataAt? settings file s)).length = l.countP (·.id.isSome) := by
  rw [← List.length_map (·.testId), map_testId_filterMap, List.length_filterMap_eq_countP]
  simp only [Option.isSome_map]

/-- The metadata of numbered declarations are of declarations with an identifier. -/
theorem exists_id_of_mem_filterMap {l : List Located} {n : Nat} {m : Metadata}
    (h : m ∈ (l.zipIdx n).filterMap (metadataAt? settings file s)) :
    ∃ l' ∈ l, ∃ id, l'.id = some id ∧ m.testId = String.ofList id := by
  have hid : m.testId ∈ l.filterMap fun l => l.id.map String.ofList :=
    map_testId_filterMap settings file s l n ▸ List.mem_map_of_mem h
  obtain ⟨l', hl', hid⟩ := List.mem_filterMap.1 hid
  obtain ⟨id, hid, hname⟩ := Option.map_eq_some_iff.1 hid
  exact ⟨l', hl', id, hid, hname.symm⟩

/-- The identifiers of the tests are those of the located declarations. -/
theorem map_testId_identified :
    (identified settings file s).map (·.testId) =
      (located settings s).filterMap fun l => l.id.map String.ofList := by
  rw [identified_eq, map_testId_filterMap]

/-- The unidentified declarations are those in code whose title has no identifier. -/
theorem unidentified_extract_eq_countP :
    (extract settings file s).unidentified =
      (codeDeclarations s).countP fun d => (settings.idWord.identifier? d.title).isNone := by
  show unidentifiedCount settings s = _
  unfold unidentifiedCount codeDeclarations
  rw [List.countP_filter, List.countP_eq_length_filter]
  simp only [Bool.and_comm]

/-- The unidentified declarations are the located ones without an identifier. -/
theorem unidentified_extract :
    (extract settings file s).unidentified = (located settings s).countP (·.id.isNone) := by
  rw [unidentified_extract_eq_countP, located_eq, List.countP_map]
  rfl

end ManifestSync.Scan
