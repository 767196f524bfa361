import ManifestSync.Pattern.Search

/-!
# Declarations of tests and of disabled suites

A test is declared by `test`, `it` or `xit`, perhaps with a modifier, an opening parenthesis and a
title in quotes. A suite is disabled by `describe.skip`, `describe.fixme` or `xdescribe`. What
follows a full stop is the name of a member and declares nothing.
-/

namespace ManifestSync.Scan

open Pattern (char text oneOf maybe blanks)

/-- The words that declare a test. -/
inductive Keyword where
  | test
  | it
  | xit
  deriving DecidableEq, Repr, Inhabited

namespace Keyword

/-- The keyword as it is written. -/
def name : Keyword → String
  | .test => "test"
  | .it => "it"
  | .xit => "xit"

/-- All keywords. -/
def all : List Keyword := [.test, .it, .xit]

/-- The keyword that a text is. -/
def ofText? (text : List Char) : Option Keyword :=
  all.find? (·.name.toList == text)

end Keyword

/-- The modifiers of a declaration. -/
inductive Modifier where
  | only
  | skip
  | fixme
  | fail
  | slow
  deriving DecidableEq, Repr, Inhabited

namespace Modifier

/-- The modifier as it is written. -/
def name : Modifier → String
  | .only => "only"
  | .skip => "skip"
  | .fixme => "fixme"
  | .fail => "fail"
  | .slow => "slow"

/-- All modifiers. -/
def all : List Modifier := [.only, .skip, .fixme, .fail, .slow]

/-- The modifier that a text is. -/
def ofText? (text : List Char) : Option Modifier :=
  all.find? (·.name.toList == text)

end Modifier

/-- A declared test as it stands in a source. -/
structure Declaration where
  /-- Offset of the keyword. -/
  start : Nat
  /-- Offset just behind the quote that closes the title. -/
  titleEnd : Nat
  keyword : Keyword
  modifier : Option Modifier
  /-- The title, with its escapes resolved. -/
  title : List Char
  deriving DecidableEq, Repr

namespace Declaration

/-- Whether the declaration itself says that the test is skipped. -/
def hasSkipMarker (d : Declaration) : Bool :=
  d.keyword = .xit || d.modifier = some .skip || d.modifier = some .fixme

end Declaration

/-- Characters of a quoted title, escapes included, up to the closing quote; kept as group `n`. -/
def quotedTitle (quote : Char) (n : Nat) : Pattern :=
  char quote
    ++ .group n (.many (.alt
        (.one fun c => c != quote && c != '\\' && c != '\n')
        (char '\\' ++ .one (· != '\n'))))
    ++ char quote

/-- A title between backquotes, kept as group `n`. It has no escapes and may span lines. -/
def templateTitle (n : Nat) : Pattern :=
  char (Char.ofNat 96) ++ .group n (.many (.one (· != Char.ofNat 96))) ++ char (Char.ofNat 96)

/-- The declaration of a test: keyword (group 1), modifier (group 2) and title (group 3). -/
def declarationPattern : Pattern :=
  .boundary
    ++ .group 1 (oneOf (Keyword.all.map (text ·.name.toList)))
    ++ maybe (char '.' ++ .group 2 (oneOf (Modifier.all.map (text ·.name.toList))))
    ++ blanks ++ char '(' ++ blanks
    ++ oneOf [quotedTitle '\'' 3, quotedTitle '"' 3, templateTitle 3]

/-- The opening of a disabled suite, up to the parenthesis before its arguments. -/
def disabledSuitePattern : Pattern :=
  .boundary
    ++ .alt
        (maybe (text "test.".toList) ++ text "describe".toList
          ++ maybe (char '.' ++ oneOf [text "serial".toList, text "parallel".toList])
          ++ char '.' ++ oneOf [text "skip".toList, text "fixme".toList])
        (text "xdescribe".toList)
    ++ blanks ++ char '('

/-- Whether the text before a match ends, white space aside, with a full stop. -/
def followsFullStop (m : Match) : Bool :=
  (m.start.behind.dropWhile Text.isBlank).head? == some '.'

/-- A text without its backslashes, save those that are themselves escaped. -/
def unescape : List Char → List Char
  | [] => []
  | '\\' :: c :: rest => c :: unescape rest
  | c :: rest => if c = '\\' then unescape rest else c :: unescape rest

/-- The declaration that a match of `declarationPattern` is. -/
def Declaration.ofMatch? (m : Match) : Option Declaration := do
  let keyword ← Keyword.ofText? (← m.group? 1)
  let title ← m.group? 3
  return {
    start := m.start.offset
    titleEnd := m.stop.offset
    keyword
    modifier := (m.group? 2).bind Modifier.ofText?
    title := unescape title }

/-- All declarations of tests, in source order, whatever region they stand in. -/
def declarations (source : List Char) : List Declaration :=
  (declarationPattern.findAll source).filterMap fun m =>
    if followsFullStop m then none else Declaration.ofMatch? m

/-- All openings of disabled suites: where each starts, and where its arguments start. -/
def disabledSuites (source : List Char) : List (Nat × Nat) :=
  (disabledSuitePattern.findAll source).filterMap fun m =>
    if followsFullStop m then none else some (m.start.offset, m.stop.offset)

end ManifestSync.Scan
