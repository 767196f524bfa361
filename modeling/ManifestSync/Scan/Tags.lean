import ManifestSync.Pattern.Search
import ManifestSync.Text.Utf8

/-!
# Tags

A declaration may list its tags in an option `tag: [...]` or `tag: '...'`, and its documentation
comment may list more of them in a section `tags`.
-/

namespace ManifestSync.Scan

open Pattern (char text oneOf blanks)

/-- The option `tag`; its value, a list in brackets or a quoted text, is group 1. -/
def tagOptionPattern : Pattern :=
  let quoted := fun (quote : Char) =>
    char quote ++ .many (.one fun c => c != quote && c != '\n') ++ char quote
  .boundary ++ text "tag".toList ++ blanks ++ char ':' ++ blanks
    ++ .group 1 (oneOf [
        char '[' ++ .many (.one (· != ']')) ++ char ']',
        quoted '\'',
        quoted '"'])

/-- A text in any of the three quotes, kept as group 1. -/
def quotedPattern : Pattern :=
  oneOf (['\'', '"', Char.ofNat 96].map fun quote =>
    char quote ++ .group 1 (.many (.one (· != quote))) ++ char quote)

/-- The quoted texts of an option's value, without white space at their ends and without those that
are empty. -/
def quotedTexts (value : List Char) : List (List Char) :=
  ((quotedPattern.findAll value).filterMap fun m => (m.group? 1).map Text.trim).filter (!·.isEmpty)

/-- The tags of the first `tag` option in a text. -/
def tagsOfHead (head : List Char) : List (List Char) :=
  match (tagOptionPattern.find? head).bind (·.group? 1) with
  | none => []
  | some value => quotedTexts value

/-- The tags of the first `tag` option between two byte offsets of a source; none when the offsets
do not delimit a text. -/
def optionTags (source : List Char) (start stop : Nat) : List (List Char) :=
  match Text.slice? source start stop with
  | none => []
  | some head => tagsOfHead head

/-- The tags listed in a documentation comment, separated by commas and spaces; each gets an `@` in
front unless it has one. -/
def listedTags (listed : List Char) : List (List Char) :=
  (((Text.splitOn (fun c => c == ',' || c == ' ') listed).map Text.trim).filter (!·.isEmpty)).map
    fun tag => if tag.head? == some '@' then tag else '@' :: tag

/-- Tags with more tags behind them, each of which is added once. -/
def addTags (tags more : List (List Char)) : List (List Char) :=
  more.foldl (fun tags tag => if tags.contains tag then tags else tags ++ [tag]) tags

end ManifestSync.Scan
