import ManifestSync.Pattern.Search
import ManifestSync.Scan.DocComment
import ManifestSync.Text.Utf8

/-!
# Assertions

An assertion is a statement that starts with `expect(`. Its text, put on one line, stands in for an
expected result that nobody has written down.
-/

namespace ManifestSync.Scan

open Pattern (char text oneOf maybe blanks)

/-- The opening of an assertion. -/
def assertionPattern : Pattern :=
  .boundary ++ text "expect".toList
    ++ maybe (char '.' ++ oneOf [text "soft".toList, text "poll".toList])
    ++ blanks ++ char '('

/-- The word `await` and the white space behind it. -/
def awaitPattern : Pattern :=
  .boundary ++ text "await".toList ++ Pattern.oneOrMore (.one Text.isBlank)

/-- White space before the full stop of a call chain. -/
def chainGapPattern : Pattern :=
  Pattern.oneOrMore (.one Text.isBlank) ++ char '.'

/-- The offsets of the assertions between two byte offsets of a source; none when the offsets do
not delimit a text. -/
def assertions (source : List Char) (start stop : Nat) : List Nat :=
  match Text.slice? source start stop with
  | none => []
  | some body => (assertionPattern.findAll body).map (start + ·.start.offset)

/-- The text of an assertion on one line, without `await`, without gaps in its call chain and
without semicolons at its end. -/
def cleanAssertion (statement : List Char) : List Char :=
  let bare := Text.trim (awaitPattern.replaceAll [] statement)
  Text.normalizeBlanks (chainGapPattern.replaceAll ['.'] (Text.trimEndOf (· == ';') bare))

end ManifestSync.Scan
