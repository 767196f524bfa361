import ManifestSync.Manifest.Metadata
import ManifestSync.Scan.Annotation
import ManifestSync.Scan.Assertion
import ManifestSync.Scan.Declaration
import ManifestSync.Scan.Identifier
import ManifestSync.Scan.Tags
import ManifestSync.Source.Bounds

/-!
# Metadata of the tests in one source

`extract` finds the declarations that stand in code and gathers what belongs to each: the
annotations in comments before it, its documentation comment, the tags of its options and the
assertions in its body. A declaration whose title has no identifier is only counted.

An annotation belongs to the first declaration at or behind it, provided that the title of that
declaration ends within the association window, that it has an identifier, and that no disabled
suite opens or closes between the two. Of several annotations of a kind the last one counts, and of
several declarations of one identifier the last one.
-/

namespace ManifestSync.Scan

open Source (Region)

/-- A source text with its bytes and their regions. -/
structure SourceText where
  chars : List Char
  bytes : List UInt8
  regions : List Region
  bytes_eq : bytes = Text.utf8 chars
  regions_eq : regions = Source.regions bytes

namespace SourceText

/-- The source text of some characters. -/
def ofChars (chars : List Char) : SourceText :=
  ⟨chars, Text.utf8 chars, Source.regions (Text.utf8 chars), rfl, rfl⟩

/-- The region at an offset. -/
def region (s : SourceText) (offset : Nat) : Region :=
  Source.regionAt s.regions offset

/-- The number of bytes. -/
def size (s : SourceText) : Nat :=
  s.bytes.length

/-- The text between two offsets; empty when they do not delimit one. -/
def slice (s : SourceText) (start stop : Nat) : List Char :=
  (Text.slice? s.chars start stop).getD []

end SourceText

/-- What scanning depends on besides the text. -/
structure Settings where
  /-- The word that starts every identifier. -/
  idWord : IdWord
  /-- How many bytes behind an annotation the title of its test may end. -/
  window : UInt64
  deriving DecidableEq, Repr

namespace Settings

/-- The last offset within the window of an offset. Offsets are 64-bit words, and the sum wraps. -/
def reach (settings : Settings) (offset : Nat) : Nat :=
  (offset + settings.window.toNat) % UInt64.size

end Settings

/-- A declaration in code with its surroundings. -/
structure Located where
  declaration : Declaration
  /-- The canonical identifier in the title. -/
  id : Option (List Char)
  /-- Offsets of the braces around the test's body; the second is the end of the text if the body
  is not closed. -/
  body : Option (Nat × Nat)
  /-- The innermost disabled suite around the declaration. -/
  suite : Option Nat
  deriving DecidableEq, Repr

/-- The extent of every disabled suite that opens in code and has a body: the offsets of its first
character and of its closing brace, which is the end of the text if there is none. -/
def suiteRanges (s : SourceText) : List (Nat × Nat) :=
  (disabledSuites s.chars).filterMap fun (start, arguments) =>
    if s.region start != .code then none
    else (Source.bodyOpen s.bytes arguments).map fun opening =>
      (start, (Source.blockEnd s.bytes opening).getD s.size)

/-- The number of the last suite whose extent holds an offset. -/
def suiteOf (suites : List (Nat × Nat)) (offset : Nat) : Option Nat :=
  ((suites.zipIdx.filter fun ((start, stop), _) => start ≤ offset && offset ≤ stop).map
    (·.2)).getLast?

/-- A declaration with its identifier, body and suite. -/
def locate (settings : Settings) (s : SourceText) (suites : List (Nat × Nat)) (d : Declaration) :
    Located where
  declaration := d
  id := settings.idWord.identifier? d.title
  body := (Source.bodyOpen s.bytes d.titleEnd).map fun opening =>
    (opening, (Source.blockEnd s.bytes opening).getD s.size)
  suite := suiteOf suites d.start

/-- The declarations that start in code. -/
def locatedDeclarations (settings : Settings) (s : SourceText) (suites : List (Nat × Nat)) :
    List Located :=
  ((declarations s.chars).filter fun d => s.region d.start == .code).map (locate settings s suites)

/-- Whether an annotation stands where annotations of its kind count: in a comment, and in a line
comment if it is a description. -/
def accepts (s : SourceText) (a : Annotation) : Bool :=
  match a.kind with
  | .description => s.region a.offset == .lineComment
  | _ => (s.region a.offset).isComment

/-- The number of the declaration that an annotation at an offset belongs to: the first one that
starts at or behind it, if the title of that one ends within the window. -/
def owner? (settings : Settings) (located : List Located) (offset : Nat) : Option Nat := do
  let index ← located.findIdx? (offset ≤ ·.declaration.start)
  let nearest ← located[index]?
  if nearest.declaration.titleEnd ≤ settings.reach offset then some index else none

/-- What the annotations of a test say. -/
structure Annotated where
  bug : Option (List Char) := none
  priority : Option (List Char) := none
  feature : Option (List Char) := none
  description : Option (List Char) := none
  skip : Bool := false
  deriving DecidableEq, Repr

namespace Annotated

/-- Takes in one annotation; it replaces an earlier one of its kind. -/
def attach (found : Annotated) (a : Annotation) : Annotated :=
  let value := if a.value.isEmpty then none else some a.value
  match a.kind with
  | .bug => { found with bug := value }
  | .priority => { found with priority := value }
  | .feature => { found with feature := value }
  | .description => { found with description := value }
  | .skip => { found with skip := true }

end Annotated

/-- The annotations that count, each with the number of the declaration it belongs to; an annotation
that a suite boundary separates from its declaration is dropped. -/
def ownedAnnotations (settings : Settings) (s : SourceText) (suites : List (Nat × Nat))
    (located : List Located) : List (Nat × Annotation) :=
  ((annotations s.chars).filter (accepts s)).filterMap fun a => do
    let index ← owner? settings located a.offset
    let nearest ← located[index]?
    if suiteOf suites a.offset = nearest.suite then some (index, a) else none

/-- What the annotations of the declaration with a number say. -/
def annotated (owned : List (Nat × Annotation)) (index : Nat) : Annotated :=
  (owned.filter (·.1 == index)).foldl (fun found (_, a) => found.attach a) {}

/-- The documentation comment of a declaration: the last one before it, if there is nothing but
white space in between. -/
def docOf (s : SourceText) (docs : List DocComment) (d : Declaration) : Option DocComment :=
  (docs.reverse.find? (·.stop ≤ d.start)).filter fun doc =>
    (s.slice doc.stop d.start).all Text.isBlank

/-- The offset where the options of a declaration end: at its body, else at the end of the call,
else where the window behind its title ends. -/
def optionsEnd (settings : Settings) (s : SourceText) (l : Located) : Nat :=
  match l.body with
  | some (opening, _) => opening
  | none =>
    (Source.callEnd s.bytes l.declaration.titleEnd).getD
      (Text.floorBoundary s.chars (settings.reach l.declaration.titleEnd))

/-- The tags of a declaration: those of its options and those listed in its documentation. -/
def tagsOf (settings : Settings) (s : SourceText) (l : Located) (doc : Option DocComment) :
    List (List Char) :=
  let options := optionTags s.chars l.declaration.titleEnd (optionsEnd settings s l)
  match doc.bind (·.section? "tags") with
  | none => options
  | some listed => addTags options (listedTags listed)

/-- The description of a test: that of its documentation, else the summary, else its annotation. -/
def descriptionOf (doc : Option DocComment) (found : Annotated) : Option (List Char) :=
  (doc.bind fun d => (d.section? "description").or d.summary).or found.description

/-- The assertions in a body, in words. -/
def assertionTexts (s : SourceText) (start stop : Nat) : List (List Char) :=
  (((assertions s.chars start stop).filter fun offset => s.region offset == .code).map fun offset =>
    cleanAssertion (s.slice offset (min (Source.statementEnd s.bytes offset) stop))).filter
      (!·.isEmpty)

/-- The expected result of a test: that of its documentation, else the assertions in its body. -/
def expectedResultOf (s : SourceText) (l : Located) (doc : Option DocComment) :
    Option (List Char) :=
  let written := doc.bind fun d => (d.section? "expectedResult").or (d.section? "expected")
  written.or do
    let (opening, closing) ← l.body
    let texts := assertionTexts s (opening + 1) closing
    if texts.isEmpty then none else some (Text.joinWith [';', ' '] texts)

/-- The metadata of an identified declaration. -/
def metadataOf (settings : Settings) (file : String) (s : SourceText) (docs : List DocComment)
    (l : Located) (id : List Char) (found : Annotated) : Metadata :=
  let doc := docOf s docs l.declaration
  let tags := tagsOf settings s l doc
  let skipped := l.declaration.hasSkipMarker || found.skip || l.suite.isSome
  { testId := String.ofList id
    testFile := file
    title := String.ofList (settings.idWord.displayTitle l.declaration.title)
    bugId := found.bug.map String.ofList
    priority := found.priority.map String.ofList
    feature := found.feature.map String.ofList
    tags := if tags.isEmpty then none else some (tags.map String.ofList)
    isSkipped := skipped
    automation := .ofSkipped skipped
    description := (descriptionOf doc found).map String.ofList
    expectedResult := (expectedResultOf s l doc).map String.ofList }

/-- The tests of one source. -/
structure FileScan where
  /-- The identified tests by identifier. -/
  tests : Std.TreeMap String Metadata
  /-- The number of declarations without an identifier. -/
  unidentified : Nat

/-- The metadata of all identified declarations of a source, in source order. -/
def identified (settings : Settings) (file : String) (s : SourceText) : List Metadata :=
  let suites := suiteRanges s
  let located := locatedDeclarations settings s suites
  let owned := ownedAnnotations settings s suites located
  let docs := docComments s.regions s.chars
  located.zipIdx.filterMap fun (l, index) =>
    l.id.map fun id => metadataOf settings file s docs l id (annotated owned index)

/-- The number of declarations in code without an identifier. -/
def unidentifiedCount (settings : Settings) (s : SourceText) : Nat :=
  ((declarations s.chars).filter fun d =>
    s.region d.start == .code && (settings.idWord.identifier? d.title).isNone).length

/-- The tests of a source. `file` is its path relative to the scan root. -/
def extract (settings : Settings) (file : String) (s : SourceText) : FileScan where
  tests := (identified settings file s).foldl (fun tests m => tests.insert m.testId m) {}
  unidentified := unidentifiedCount settings s

end ManifestSync.Scan
