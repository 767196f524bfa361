import ManifestSync.Pattern.Search

/-!
# Identifiers in titles

A title names its test by a word and a number, such as `TC-12`, `TC:12` or `@TC-12`; the word is
configured. `identifier?` reads the first of them, `displayTitle` takes one away from whichever end
of the title has it.
-/

namespace ManifestSync.Scan

open Pattern (char text maybe blanks)

/-- The word that starts every identifier, without white space at its ends. -/
structure IdWord where
  word : List Char
  deriving DecidableEq, Repr

namespace IdWord

/-- The word of a configured text. -/
def ofText (text : List Char) : IdWord := ⟨Text.trim text⟩

/-- The word, a hyphen or colon, and perhaps one space. -/
def stem (w : IdWord) : Pattern :=
  text w.word ++ .one (fun c => c == '-' || c == ':') ++ maybe (char ' ')

/-- The digits of an identifier. -/
def number : Pattern := Pattern.oneOrMore (.one Text.isDigit)

/-- An identifier anywhere in a title; its number is group 1. -/
def pattern (w : IdWord) : Pattern :=
  maybe (char '@') ++ .boundary ++ w.stem ++ .group 1 number ++ .boundary

/-- An identifier at the start of a title, with what separates it from the rest. -/
def leading (w : IdWord) : Pattern :=
  .atStart ++ blanks ++ maybe (char '@') ++ w.stem ++ number ++ .boundary ++ blanks
    ++ maybe (.one fun c => c == ':' || c == '-' || c == '–') ++ blanks

/-- An identifier at the end of a title. -/
def trailing (w : IdWord) : Pattern :=
  blanks ++ maybe (char '@') ++ .boundary ++ w.stem ++ number ++ blanks ++ .atEnd

/-- The identifier of a title in its canonical form: word, hyphen, number. -/
def identifier? (w : IdWord) (title : List Char) : Option (List Char) :=
  ((w.pattern.find? title).bind (·.group? 1)).map (w.word ++ '-' :: ·)

/-- The title without the identifier at its start or, if it has none there, at its end. -/
def displayTitle (w : IdWord) (title : List Char) : List Char :=
  let bare :=
    if (w.leading.find? title).isSome then w.leading.replaceFirst [] title
    else w.trailing.replaceFirst [] title
  Text.trim bare

end IdWord

end ManifestSync.Scan
