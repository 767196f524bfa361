import ManifestSync.Proofs.Scan.Attribution
import ManifestSync.Proofs.Scan.DocSearch
import ManifestSync.Proofs.Scan.Identifier
import ManifestSync.Proofs.Scan.TagOption
import ManifestSync.Sync.Config

/-!
# The metadata of a test are normalised

Each text of the metadata comes from one of several places: a title, an annotation, a section of a
documentation comment, an option, or the assertions of a body. Every place has its own way of trimming,
and of leaving out what is empty. `Normalised` says what all of them come to: a text that is there has
something in it, and no white space at its ends.

A value of an annotation is trimmed when the annotation is read, and dropped if it is empty
(`isTrimmed_of_mem_value?`). A text of a documentation comment is put on one line, which trims it, and
one that is empty counts as none (`normalised_of_readBody`). Tags are trimmed one by one; the `@` that a
listed tag may get is not blank (`isTrimmed_of_mem_listedTags`). The assertions of a body are trimmed
before they are joined, so that only the ends of the first and of the last one matter
(`isTrimmed_of_mem_expectedResultOf`).
-/

namespace ManifestSync.Scan

/-- The metadata of a test in a file, if every identifier starts with a word. -/
structure Normalised (word : List Char) (file : String) (m : Metadata) : Prop where
  /-- The identifier is the word, a hyphen and one digit or more. -/
  testId : ∃ digits, digits ≠ [] ∧ (∀ ch ∈ digits, Text.isDigit ch = true) ∧
    m.testId.toList = word ++ '-' :: digits
  /-- The file is the given one. -/
  testFile : m.testFile = file
  /-- The title has no white space at its ends; it may be empty. -/
  title : Text.trim m.title.toList = m.title.toList
  /-- A bug that is there is trimmed. -/
  bugId : ∀ v ∈ m.bugId, Text.IsTrimmed v.toList
  /-- A priority that is there is trimmed. -/
  priority : ∀ v ∈ m.priority, Text.IsTrimmed v.toList
  /-- A feature that is there is trimmed. -/
  feature : ∀ v ∈ m.feature, Text.IsTrimmed v.toList
  /-- A description that is there is trimmed. -/
  description : ∀ v ∈ m.description, Text.IsTrimmed v.toList
  /-- An expected result that is there is trimmed. -/
  expectedResult : ∀ v ∈ m.expectedResult, Text.IsTrimmed v.toList
  /-- If there are tags there is one at least, and each of them is trimmed. -/
  tags : ∀ tags ∈ m.tags, tags ≠ [] ∧ ∀ tag ∈ tags, Text.IsTrimmed tag.toList
  /-- The test is manual exactly if it is skipped. -/
  automation : m.automation = .manual ↔ m.isSkipped = true

/-- Texts that are trimmed stay so as strings. -/
theorem isTrimmed_of_mem_map_ofList {value : Option (List Char)}
    (h : ∀ text ∈ value, Text.IsTrimmed text) :
    ∀ v ∈ value.map String.ofList, Text.IsTrimmed v.toList := by
  intro v hv
  obtain ⟨text, htext, rfl⟩ := Option.map_eq_some_iff.1 hv
  rw [String.toList_ofList]
  exact h text htext

/-! ## Annotations -/

section
variable {settings : Settings} {s : SourceText}

/-- The value that the annotations of a declaration give for a kind is trimmed. -/
theorem isTrimmed_of_mem_value? {index : Nat} (kind : AnnotationKind) (hkind : kind ≠ .skip)
    {v : List Char} (hv : v ∈ (annotated (ownedAnnotations settings s (suiteRanges s)
      (located settings s)) index).value? kind) : Text.IsTrimmed v := by
  rw [value?_annotated_eq_bind hkind] at hv
  obtain ⟨a, hlast, hv⟩ := Option.bind_eq_some_iff.1 hv
  -- An empty value of the annotation which decides would count as none.
  obtain ⟨hne, hv⟩ := Option.mem_ite_none_left.1 hv
  obtain rfl := Option.some.inj hv
  obtain ⟨ha, -⟩ := mem_ownAnnotations_iff_owned?.1 (deciding?_eq_some_iff.1 hlast).1
  exact ⟨by simpa using hne, trim_value_of_mem_annotations ha⟩

end

/-! ## Documentation comments -/

/-- The summary of a documentation comment is trimmed, and so is each of its sections that is not
empty. -/
structure DocComment.Normalised (doc : DocComment) : Prop where
  summary : ∀ v ∈ doc.summary, Text.IsTrimmed v
  sections : ∀ p ∈ doc.sections, p.2 ≠ [] → Text.IsTrimmed p.2

/-- Lines that are joined are trimmed, unless nothing is left of them. -/
theorem isTrimmed_joinLines {lines : List (List Char)} (h : joinLines lines ≠ []) :
    Text.IsTrimmed (joinLines lines) :=
  Text.isTrimmed_normalizeBlanks h

/-- The texts that are read from a body are trimmed. -/
theorem normalised_of_readBody {body : List Char} {doc : DocComment}
    (h : readBody body = (doc.summary, doc.sections)) : doc.Normalised := by
  obtain ⟨hsummary, hsections⟩ := Prod.mk.inj h
  constructor
  · intro v hv
    rw [← hsummary] at hv
    obtain ⟨hne, hv⟩ := Option.mem_ite_none_left.1 hv
    obtain rfl := Option.some.inj hv
    exact isTrimmed_joinLines (by simpa using hne)
  · intro p hp hne
    rw [← hsections] at hp
    obtain ⟨⟨opening, lines⟩, -, rfl⟩ := List.mem_map.1 hp
    exact isTrimmed_joinLines hne

/-- The documentation comment of a declaration is normalised. -/
theorem normalised_of_mem_docOf {map : List Source.Region} {source : List Char} {s : SourceText}
    {d : Declaration} {doc : DocComment} (h : doc ∈ docOf s (docComments map source) d) :
    doc.Normalised := by
  have hfind := Option.eq_some_of_filter_eq_some h
  obtain ⟨body, hbody⟩ := exists_body_of_mem (List.mem_reverse.1 (List.mem_of_find?_eq_some hfind))
  exact normalised_of_readBody hbody

/-- The text of a section is trimmed. -/
theorem DocComment.Normalised.isTrimmed_of_mem_section? {doc : DocComment} (h : doc.Normalised)
    {name : String} {v : List Char} (hv : v ∈ doc.section? name) : Text.IsTrimmed v := by
  obtain ⟨hv, hne⟩ := Option.filter_eq_some_iff.1 hv
  obtain ⟨p, hfind, rfl⟩ := Option.map_eq_some_iff.1 hv
  exact h.sections p (List.mem_reverse.1 (List.mem_of_find?_eq_some hfind)) (by simpa using hne)

/-! ## Descriptions and expected results -/

section
variable {s : SourceText} {doc : Option DocComment} {v : List Char}

/-- A description is trimmed if the documentation and the annotation that it may come from are. -/
theorem isTrimmed_of_mem_descriptionOf {found : Annotated} (hdoc : ∀ d ∈ doc, d.Normalised)
    (hfound : ∀ v ∈ found.description, Text.IsTrimmed v) (hv : v ∈ descriptionOf doc found) :
    Text.IsTrimmed v := by
  -- A section comes before the summary, and both before the annotation.
  rcases Option.or_eq_some_iff.1 hv with hv | ⟨-, hv⟩
  · obtain ⟨d, hd, hv⟩ := Option.bind_eq_some_iff.1 hv
    rcases Option.or_eq_some_iff.1 hv with hv | ⟨-, hv⟩
    · exact (hdoc d hd).isTrimmed_of_mem_section? hv
    · exact (hdoc d hd).summary v hv
  · exact hfound v hv

/-- The text of an assertion is trimmed, unless nothing is left of it. -/
theorem isTrimmed_cleanAssertion {statement : List Char} (h : cleanAssertion statement ≠ []) :
    Text.IsTrimmed (cleanAssertion statement) :=
  Text.isTrimmed_normalizeBlanks h

/-- The assertions of a body are trimmed. -/
theorem isTrimmed_of_mem_assertionTexts {start stop : Nat} (hv : v ∈ assertionTexts s start stop) :
    Text.IsTrimmed v := by
  obtain ⟨hv, hne⟩ := Text.mem_filter_not_isEmpty.1 hv
  obtain ⟨offset, -, rfl⟩ := List.mem_map.1 hv
  exact isTrimmed_cleanAssertion hne

/-- An expected result is trimmed if the documentation that it may come from is. -/
theorem isTrimmed_of_mem_expectedResultOf {l : Located} (hdoc : ∀ d ∈ doc, d.Normalised)
    (hv : v ∈ expectedResultOf s l doc) : Text.IsTrimmed v := by
  rcases Option.or_eq_some_iff.1 hv with hv | ⟨-, hv⟩
  · obtain ⟨d, hd, hv⟩ := Option.bind_eq_some_iff.1 hv
    rcases Option.or_eq_some_iff.1 hv with hv | ⟨-, hv⟩
    · exact (hdoc d hd).isTrimmed_of_mem_section? hv
    · exact (hdoc d hd).isTrimmed_of_mem_section? hv
  · obtain ⟨⟨opening, closing⟩, -, hv⟩ := Option.bind_eq_some_iff.1 hv
    obtain ⟨hne, hv⟩ := Option.mem_ite_none_left.1 hv
    obtain rfl := Option.some.inj hv
    exact Text.isTrimmed_joinWith [';', ' '] (by simpa using hne) fun _ =>
      isTrimmed_of_mem_assertionTexts

/-! ## Tags -/

/-- The quoted texts of a value are trimmed. -/
theorem isTrimmed_of_mem_quotedTexts {value tag : List Char} (h : tag ∈ quotedTexts value) :
    Text.IsTrimmed tag := by
  obtain ⟨h, hne⟩ := Text.mem_filter_not_isEmpty.1 h
  obtain ⟨m, -, hm⟩ := List.mem_filterMap.1 h
  obtain ⟨raw, -, rfl⟩ := Option.map_eq_some_iff.1 hm
  exact Text.isTrimmed_trim hne

/-- The tags of an option are trimmed. -/
theorem isTrimmed_of_mem_optionTags {source : List Char} {start stop : Nat} {tag : List Char}
    (h : tag ∈ optionTags source start stop) : Text.IsTrimmed tag := by
  unfold optionTags tagsOfHead at h
  -- There are tags only if there is a text, and an option in it.
  split at h
  · exact absurd h List.not_mem_nil
  · split at h
    · exact absurd h List.not_mem_nil
    · exact isTrimmed_of_mem_quotedTexts h

/-- The tags that a documentation comment lists are trimmed. -/
theorem isTrimmed_of_mem_listedTags {listed tag : List Char} (h : tag ∈ listedTags listed) :
    Text.IsTrimmed tag := by
  obtain ⟨piece, hpiece, rfl⟩ := List.mem_map.1 h
  obtain ⟨hpiece, hne⟩ := Text.mem_filter_not_isEmpty.1 hpiece
  obtain ⟨raw, -, rfl⟩ := List.mem_map.1 hpiece
  have htrimmed := Text.isTrimmed_trim hne
  split_ifs
  · exact htrimmed
  · exact htrimmed.cons (by decide)

/-- The tags of a declaration are trimmed. -/
theorem isTrimmed_of_mem_tagsOf {settings : Settings} {l : Located} {tag : List Char}
    (h : tag ∈ tagsOf settings s l doc) : Text.IsTrimmed tag := by
  unfold tagsOf at h
  cases hlisted : doc.bind (·.section? "tags") with
  | none =>
    rw [hlisted] at h
    exact isTrimmed_of_mem_optionTags h
  | some listed =>
    rw [hlisted] at h
    rcases mem_addTags.1 h with h | h
    · exact isTrimmed_of_mem_optionTags h
    · exact isTrimmed_of_mem_listedTags h

end

/-! ## The metadata of a test -/

/-- A test is manual exactly if it is skipped. -/
theorem ofSkipped_eq_manual_iff {skipped : Bool} :
    Automation.ofSkipped skipped = .manual ↔ skipped = true := by
  cases skipped <;> decide

/-- The metadata of a declaration with an identifier are normalised. -/
theorem normalised_metadataOf {settings : Settings} (file : String) {s : SourceText} (index : Nat)
    {l : Located} {id : List Char} (hl : l ∈ located settings s) (hid : l.id = some id) :
    Normalised settings.idWord.word file (metadataOf settings file s
      (docComments s.regions s.chars) l id
      (annotated (ownedAnnotations settings s (suiteRanges s) (located settings s)) index)) where
  testId := by
    obtain ⟨d, -, rfl⟩ := List.mem_map.1 hl
    obtain ⟨digits, hne, hdigits, rfl⟩ := IdWord.exists_digits_of_identifier? hid
    exact ⟨digits, hne, hdigits, String.toList_ofList⟩
  testFile := rfl
  title := by
    simp only [metadataOf, String.toList_ofList]
    exact Text.trim_trim _
  bugId := isTrimmed_of_mem_map_ofList fun _ => isTrimmed_of_mem_value? .bug nofun
  priority := isTrimmed_of_mem_map_ofList fun _ => isTrimmed_of_mem_value? .priority nofun
  feature := isTrimmed_of_mem_map_ofList fun _ => isTrimmed_of_mem_value? .feature nofun
  description := isTrimmed_of_mem_map_ofList fun _ =>
    isTrimmed_of_mem_descriptionOf (fun _ => normalised_of_mem_docOf) fun _ =>
      isTrimmed_of_mem_value? .description nofun
  expectedResult := isTrimmed_of_mem_map_ofList fun _ =>
    isTrimmed_of_mem_expectedResultOf fun _ => normalised_of_mem_docOf
  tags := by
    intro tags htags
    obtain ⟨hne, htags⟩ := Option.mem_ite_none_left.1 htags
    obtain rfl := Option.some.inj htags
    refine ⟨by simpa using hne, fun tag htag => ?_⟩
    obtain ⟨text, htext, rfl⟩ := List.mem_map.1 htag
    rw [String.toList_ofList]
    exact isTrimmed_of_mem_tagsOf htext
  automation := ofSkipped_eq_manual_iff

/-- What extraction says of each test is normalised. The test is found under its identifier, which is
the configured word, a hyphen and one digit or more; it has the file that is given, and every text of
its metadata that is there has something in it and no white space at its ends. -/
theorem normalised_of_mem_tests_extract {config : Config} {file id : String} {s : SourceText}
    {m : Metadata} (h : (id, m) ∈ (extract config.settings file s).tests.toList) :
    id = m.testId ∧ Normalised (Text.trim config.idPrefix.toList) file m := by
  obtain ⟨hm, hid⟩ := mem_identified_of_mem_tests_extract config.settings file s h
  obtain ⟨index, l, hl, hm⟩ := exists_of_mem_identified config.settings file s hm
  obtain ⟨name, hname, rfl⟩ := Option.map_eq_some_iff.1 hm
  exact ⟨hid.symm, normalised_metadataOf file index (List.mem_of_getElem? hl) hname⟩

/-- A test with an annotation, a summary, a tag and an assertion, none of which is written tidily. -/
theorem normalised_of_mem_tests_extract_untidy :
    let config : Config := {}
    let s : SourceText := .ofChars ("// @bug: A-1\n/** Opens  the cart. */\n".toList ++
      "it('TC:1 - cart ', \x7b tag: ' @a ' \x7d, () => \x7b await expect(a) ; \x7d)".toList)
    ∃ m, ("TC-1", m) ∈ (extract config.settings "a.spec.ts" s).tests.toList ∧
      m.title = "cart" ∧ m.bugId = some "A-1" ∧ m.description = some "Opens the cart." ∧
      m.tags = some ["@a"] ∧ m.expectedResult = some "expect(a)" ∧
      Normalised (Text.trim config.idPrefix.toList) "a.spec.ts" m := by
  intro config s
  have hannotations : annotations s.chars = [⟨.bug, 3, "A-1".toList⟩] :=
    annotations_eq_singleton (by decide +kernel)
  have hfound : (extract config.settings "a.spec.ts" s).tests["TC-1"]? =
      some ⟨"TC-1", "a.spec.ts", "cart", some "A-1", none, none, some ["@a"], false, .ui,
        some "Opens the cart.", some "expect(a)"⟩ := by
    rw [getElem?_tests_extract_eq_bind]
    unfold metadataAt? ownedAnnotations
    rw [hannotations]
    decide +kernel
  have hmem := Std.TreeMap.mem_toList_iff_getElem?_eq_some.2 hfound
  exact ⟨_, hmem, rfl, rfl, rfl, rfl, rfl, (normalised_of_mem_tests_extract hmem).2⟩

end ManifestSync.Scan
