/-!
# White space

The characters with the Unicode property `White_Space`, and the operations on texts that are
defined by them: trimming, splitting into lines, splitting at the first blank.
-/

namespace ManifestSync.Text

/-- Whether a character has the Unicode property `White_Space`. -/
def isBlank (c : Char) : Bool :=
  let n := c.toNat
  (9 ≤ n && n ≤ 13) || n = 32 || n = 0x85 || n = 0xA0 || n = 0x1680
    || (0x2000 ≤ n && n ≤ 0x200A) || n = 0x2028 || n = 0x2029 || n = 0x202F || n = 0x205F
    || n = 0x3000

/-- The text without the characters of a class at its start. -/
def trimStartOf (p : Char → Bool) (text : List Char) : List Char :=
  text.dropWhile p

/-- The text without the characters of a class at its end. -/
def trimEndOf (p : Char → Bool) (text : List Char) : List Char :=
  (text.reverse.dropWhile p).reverse

/-- The text without white space at either end. -/
def trim (text : List Char) : List Char :=
  trimEndOf isBlank (trimStartOf isBlank text)

/-- The pieces of a text between the characters of a class; there is one piece more than there are
such characters. -/
def splitOn (p : Char → Bool) : List Char → List (List Char)
  | [] => [[]]
  | c :: rest =>
    match splitOn p rest with
    | [] => [[]]
    | piece :: pieces => if p c then [] :: piece :: pieces else (c :: piece) :: pieces

/-- The lines of a text: what stands between its line feeds, without a last empty line. A carriage
return before a line feed stays with its line. -/
def lines (text : List Char) : List (List Char) :=
  let pieces := splitOn (· == '\n') text
  if pieces.getLast? = some [] then pieces.dropLast else pieces

/-- The text before the first white space, and the text behind that one character; the second part
is empty when there is no white space. -/
def splitAtBlank (text : List Char) : List Char × List Char :=
  (text.takeWhile (!isBlank ·), (text.dropWhile (!isBlank ·)).drop 1)

/-- Whether a text ends with another one. -/
def endsWith (text suffix : List Char) : Bool :=
  suffix.isSuffixOf text

/-- The texts of a list with a separator between neighbours. -/
def joinWith (separator : List Char) (pieces : List (List Char)) : List Char :=
  (pieces.intersperse separator).flatten

end ManifestSync.Text
