import ManifestSync.Source.RegionMap
import ManifestSync.Text.Blank
import ManifestSync.Text.Utf8

/-!
# Documentation comments

A documentation comment is a block comment that starts with two stars. It is split into a summary,
the text before the first line that starts with `@`, and one section for each such line.
-/

namespace ManifestSync.Text

/-- The words of a text: its longest pieces without white space. -/
def words (text : List Char) : List (List Char) :=
  (splitOn isBlank text).filter (!·.isEmpty)

/-- A text with one space between its words and no other white space. -/
def normalizeBlanks (text : List Char) : List Char :=
  joinWith [' '] (words text)

end ManifestSync.Text

namespace ManifestSync.Scan

open Source (Region)

/-- A documentation comment. -/
structure DocComment where
  /-- Offset of the opening slash. -/
  start : Nat
  /-- Offset behind the closing slash. -/
  stop : Nat
  /-- The text before the first section. -/
  summary : Option (List Char)
  /-- The name and the text of each section. -/
  sections : List (List Char × List Char)
  deriving DecidableEq, Repr

namespace DocComment

/-- The text of the last section of a name, unless it is empty. -/
def section? (doc : DocComment) (name : String) : Option (List Char) :=
  ((doc.sections.reverse.find? (·.1 == name.toList)).map (·.2)).filter (!·.isEmpty)

end DocComment

/-- A line of a comment without white space at its ends and without its leading stars. -/
def stripLine (line : List Char) : List Char :=
  Text.trim (Text.trimStartOf (· == '*') (Text.trim line))

/-- The text of several lines. -/
def joinLines (lines : List (List Char)) : List Char :=
  Text.normalizeBlanks (Text.joinWith [' '] (lines.filter (!·.isEmpty)))

/-- Whether a line opens a section. -/
def opensSection (line : List Char) : Bool :=
  line.head? == some '@'

/-- Adds a line in front of lines that are already split: the lines that belong to no section of
theirs, and the sections, each with the line that opens it and the lines that follow. -/
def addLine (line : List Char)
    (split : List (List Char) × List (List Char × List (List Char))) :
    List (List Char) × List (List Char × List (List Char)) :=
  if opensSection line then ([], (line, split.1) :: split.2) else (line :: split.1, split.2)

/-- Splits lines at those that open a section: the lines before the first of them, and each section
with the line that opens it and the lines up to the next such line. -/
def splitSections (lines : List (List Char)) :
    List (List Char) × List (List Char × List (List Char)) :=
  lines.foldr addLine ([], [])

/-- The name and the text of a section. The name stands between the `@` and the first white space;
what follows it is the first line of the text. -/
def readSection (opening : List Char) (lines : List (List Char)) : List Char × List Char :=
  let (name, value) := Text.splitAtBlank (opening.drop 1)
  (name, joinLines (Text.trim value :: lines))

/-- Summary and sections of a comment's body. -/
def readBody (body : List Char) : Option (List Char) × List (List Char × List Char) :=
  let lines := ((Text.lines body).map stripLine).filter (!·.isEmpty)
  let (summary, sections) := splitSections lines
  let text := joinLines summary
  (if text.isEmpty then none else some text,
    sections.map fun (opening, rest) => readSection opening rest)

/-- The text before the first `*/`, if there is one. -/
def untilClose : List Char → Option (List Char)
  | [] => none
  | c :: rest =>
    if c = '*' ∧ rest.head? = some '/' then some [] else (untilClose rest).map (c :: ·)

/-- Whether the `/**` at an offset opens a comment: it belongs to a block comment, and the byte
before it, if any, is not in a comment or closes one. `before` is the text before it, reversed. -/
def opensComment (map : List Region) (offset : Nat) (before : List Char) : Bool :=
  Source.regionAt map offset == .blockComment
    && (offset == 0 || !(Source.regionAt map (offset - 1)).isComment
      || before.take 2 == ['/', '*'])

/-- The documentation comments that start at or behind the offset `resume`. `before` is the text
before the current position, reversed. The search gives up at one that is not closed. -/
def docCommentsFrom (map : List Region) (before : List Char) (offset resume : Nat) :
    List Char → List DocComment
  | [] => []
  | c :: rest =>
    let next := fun resume =>
      docCommentsFrom map (c :: before) (offset + c.utf8Size) resume rest
    if offset < resume ∨ ¬ ['/', '*', '*'].isPrefixOf (c :: rest) then next resume
    else if !opensComment map offset before || rest.take 3 == ['*', '*', '/'] then
      next (offset + 3)
    else match untilClose (rest.drop 2) with
      | none => []
      | some body =>
        let stop := offset + 3 + Text.byteLength body + 2
        let (summary, sections) := readBody body
        ⟨offset, stop, summary, sections⟩ :: next stop

/-- The documentation comments of a text, given the region of each of its bytes. -/
def docComments (map : List Region) (source : List Char) : List DocComment :=
  docCommentsFrom map [] 0 0 source

end ManifestSync.Scan
