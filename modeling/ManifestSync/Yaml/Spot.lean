import ManifestSync.Text.Utf8

/-!
# Characters with their places

A YAML text is read as a list of `Spot`s: its characters, each with its line, its column and its
index. Line breaks are one character each; indentation and the limits on keys are questions about
spots.
-/

namespace ManifestSync.Yaml

/-- A character at its place in a text. -/
structure Spot where
  char : Char
  line : Nat
  column : Nat
  index : Nat
  deriving Repr, Inhabited

/-- Whether a character ends a line. -/
def isBreak (c : Char) : Bool := c == '\n' || c == '\u2028' || c == '\u2029'

/-- Whether a character is a space or a tab. -/
def isSpaceOrTab (c : Char) : Bool := c == ' ' || c == '\t'

/-- Whether a character may occur in a YAML text. -/
def isReadable (c : Char) : Bool :=
  let n := c.toNat
  n = 9 || n = 10 || n = 13 || (32 ≤ n && n ≤ 126) || n = 0x85 || (0xA0 ≤ n && n ≤ 0xFFFD)
    || 0x10000 ≤ n

/-- A text with every carriage return, alone or before a line feed, and every next-line character
as a line feed. -/
def unifyBreaks : List Char → List Char
  | [] => []
  | '\r' :: '\n' :: rest => '\n' :: unifyBreaks rest
  | '\r' :: rest => '\n' :: unifyBreaks rest
  | '\u0085' :: rest => '\n' :: unifyBreaks rest
  | c :: rest => c :: unifyBreaks rest

/-- The spots of a text from a place on. -/
def spotsFrom : (line column index : Nat) → List Char → List Spot
  | _, _, _, [] => []
  | line, column, index, c :: rest =>
    ⟨c, line, column, index⟩ ::
      if isBreak c then spotsFrom (line + 1) 0 (index + 1) rest
      else spotsFrom line (column + 1) (index + 1) rest

/-- A text without a byte order mark at its start. -/
def dropMark : List Char → List Char
  | '\uFEFF' :: rest => rest
  | text => text

/-- The spots of a text, if all its characters may occur in YAML. A byte order mark at the start is
no character of the text; a second one takes a column but is skipped. -/
def spots? (text : List Char) : Option (List Spot) :=
  if text.all isReadable then
    let spots := spotsFrom 0 0 0 (unifyBreaks (dropMark text))
    match spots with
    | ⟨'\uFEFF', _, _, _⟩ :: rest => some rest
    | _ => some spots
  else none

/-- Whether a character is at the head of some spots. -/
def startsWith (c : Char) : List Spot → Bool
  | [] => false
  | s :: _ => s.char == c

/-- Whether a class has the character at the head of some spots. -/
def headIs (p : Char → Bool) : List Spot → Bool
  | [] => false
  | s :: _ => p s.char

/-- Whether there is a space, a tab, a line break or the end of the text ahead. -/
def atGap : List Spot → Bool
  | [] => true
  | s :: _ => isSpaceOrTab s.char || isBreak s.char

/-- Whether the line or the text ends here. -/
def atLineEnd : List Spot → Bool
  | [] => true
  | s :: _ => isBreak s.char

/-- The characters of a class at the head of some spots, and the spots behind them. -/
def spanClass (p : Char → Bool) : List Spot → List Char × List Spot
  | [] => ([], [])
  | s :: rest =>
    if p s.char then
      let (taken, rest) := spanClass p rest
      (s.char :: taken, rest)
    else ([], s :: rest)

/-- Whether a line starts with a mark of three characters and a gap behind it. -/
def lineStartsWith (c : Char) : List Spot → Bool
  | a :: b :: d :: rest => a.column == 0 && a.char == c && b.char == c && d.char == c && atGap rest
  | _ => false

/-- Whether a line starts with the mark of a document's start or end. -/
def atDocumentMark (spots : List Spot) : Bool :=
  lineStartsWith '-' spots || lineStartsWith '.' spots

/-! ## Gaps -/

/-- What separates two words of a scalar: white space, and the line breaks if the words stand on
different lines. -/
structure Gap where
  spaces : List Char
  breaks : List Char

/-- The text that a gap stands for. One line break is a space, and of several the first is dropped;
the separators of lines and paragraphs stand for themselves. -/
def Gap.folded (gap : Gap) : List Char :=
  match gap.breaks with
  | [] => gap.spaces
  | ['\n'] => [' ']
  | '\n' :: more => more
  | breaks => breaks

/-- Reads a gap. White space in front of the first word of a line is dropped; where a class of
columns is given, a tab there is refused. -/
def readGap (tabless : Nat → Bool) (gap : Gap) : List Spot → Option (Gap × List Spot)
  | [] => some (gap, [])
  | s :: rest =>
    if isBreak s.char then readGap tabless ⟨[], gap.breaks ++ [s.char]⟩ rest
    else if isSpaceOrTab s.char then
      if gap.breaks.isEmpty then readGap tabless ⟨gap.spaces ++ [s.char], []⟩ rest
      else if s.char == '\t' && tabless s.column then none
      else readGap tabless gap rest
    else some (gap, s :: rest)

end ManifestSync.Yaml
