import ManifestSync.Yaml.Scalar
import ManifestSync.Yaml.Spot

/-!
# Scalars as text

A text is written without quotes where it reads back as that text, between single quotes where it
would be read as something else or contains an indicator, between double quotes with escapes where
it has characters that cannot stand in YAML or white space at a line break, and as a literal block
where it has several lines.
-/

namespace ManifestSync.Yaml

/-- How a text is written. -/
inductive Style where
  | plain
  | single
  | double
  | literal
  deriving DecidableEq, Repr

/-- Whether a character can stand in a scalar without an escape. -/
def isWritable (c : Char) : Bool :=
  let n := c.toNat
  n = 10 || (32 ≤ n && n ≤ 126) || (0xA0 ≤ n && n ≤ 0xFFFD && n ≠ 0xFEFF) || 0x10000 ≤ n

/-- Whether a character ends a line or would be read as doing so. -/
def endsLine (c : Char) : Bool := isBreak c || c == '\r' || c == '\u0085'

/-- Whether the text behind a character begins with white space or is at its end. -/
def gapAhead : List Char → Bool
  | [] => true
  | c :: _ => isSpaceOrTab c || isBreak c || c.toNat = 0

/-- Whether a character that begins a scalar makes it something else than a plain one. -/
def indicatesFirst (c : Char) (rest : List Char) : Bool :=
  c == '#' || c == ',' || c == '[' || c == ']' || c == '{' || c == '}' || c == '&' || c == '*'
    || c == '!' || c == '|' || c == '>' || c == '\'' || c == '"' || c == '%' || c == '@'
    || c == Char.ofNat 96 || ((c == '?' || c == ':' || c == '-') && gapAhead rest)

/-- Whether a character within a scalar makes it something else than a plain one: a colon before a
gap or a number sign behind one. -/
def indicatesWithin : (previous : Char) → List Char → Bool
  | _, [] => false
  | previous, c :: rest =>
    (c == ':' && gapAhead rest) || (c == '#' && gapAhead [previous]) || indicatesWithin c rest

/-- Whether a text begins like a mark of a document's start or end. -/
def beginsLikeMark (text : List Char) : Bool :=
  text.take 3 == ['-', '-', '-'] || text.take 3 == ['.', '.', '.']

/-- Whether a text has an indicator that keeps it from being plain. -/
def hasIndicator : List Char → Bool
  | [] => false
  | c :: rest => beginsLikeMark (c :: rest) || indicatesFirst c rest || indicatesWithin c rest

/-- Whether two classes have neighbouring characters of a text, in this order. -/
def hasNeighbours (p q : Char → Bool) : List Char → Bool
  | a :: b :: rest => (p a && q b) || hasNeighbours p q (b :: rest)
  | _ => false

/-- Whether a character is the space. -/
def isSpace (c : Char) : Bool := c == ' '

/-- Whether nothing but double quotes can hold a text: it has a character that needs an escape, or
a space in front of a line break. -/
def onlyDouble (text : List Char) : Bool :=
  !text.all isWritable || hasNeighbours isSpace isBreak text

/-- Whether a text can be written without quotes. -/
def plainAllowed (text : List Char) : Bool :=
  !(onlyDouble text || text.any isBreak || text.head?.any isSpace || text.getLast?.any isSpace
    || hasIndicator text)

/-- Whether a text can be written between single quotes. -/
def singleAllowed (text : List Char) : Bool :=
  !(onlyDouble text || hasNeighbours isBreak isSpace text)

/-- Whether a text can be written as a literal block. -/
def literalAllowed (text : List Char) : Bool :=
  !(text.isEmpty || onlyDouble text || text.getLast?.any isSpace)

/-- How a text is written. A key on one line with its value admits no line breaks. -/
def styleOf (inKey : Bool) (text : List Char) : Style :=
  if inKey && text.any isBreak then .double
  else if text.contains '\n' then if literalAllowed text && !inKey then .literal else .double
  else if !needsQuotes text && plainAllowed text then .plain
  else if singleAllowed text then .single
  else .double

/-- Spaces in front of a line. -/
def indentation (indent : Nat) : List Char := List.replicate indent ' '

/-- The content between single quotes: quotes are doubled, and a line goes on indented. -/
def singleContent (indent : Nat) : (broken : Bool) → List Char → List Char
  | broken, [] => if broken then indentation indent else []
  | broken, c :: rest =>
    if isBreak c then c :: singleContent indent true rest
    else
      (if broken then indentation indent else []) ++ (if c = '\'' then ['\'', '\''] else [c])
        ++ singleContent indent false rest

/-- A digit to the base sixteen, in upper case. -/
def upperDigit (n : Nat) : Char := if n < 10 then Nat.digitChar n else Char.ofNat (n + 55)

/-- The last `width` digits of a number to the base sixteen. -/
def upperDigits : (width n : Nat) → List Char
  | 0, _ => []
  | width + 1, n => upperDigits width (n / 16) ++ [upperDigit (n % 16)]

/-- A character between double quotes. -/
def doubleChar (c : Char) : List Char :=
  if isWritable c && !isBreak c && c != '"' && c != '\\' then [c]
  else
    '\\' :: match c with
      | '\x00' => ['0']
      | '\x07' => ['a']
      | '\x08' => ['b']
      | '\t' => ['t']
      | '\n' => ['n']
      | '\x0b' => ['v']
      | '\x0c' => ['f']
      | '\r' => ['r']
      | '\x1b' => ['e']
      | '"' => ['"']
      | '\\' => ['\\']
      | '\u0085' => ['N']
      | '\u2028' => ['L']
      | '\u2029' => ['P']
      | c =>
        if c.toNat ≤ 0xFF then 'x' :: upperDigits 2 c.toNat
        else if c.toNat ≤ 0xFFFF then 'u' :: upperDigits 4 c.toNat
        else 'U' :: upperDigits 8 c.toNat

/-- The lines of a literal block; a line that is not empty is indented. -/
def literalContent (indent : Nat) : (broken : Bool) → List Char → List Char
  | _, [] => []
  | broken, c :: rest =>
    if isBreak c then c :: literalContent indent true rest
    else
      (if broken then indentation indent else []) ++ c :: literalContent indent false rest

/-- The indicators behind the bar of a literal block: its indentation, if its text begins with white
space, and what is kept at its end. -/
def literalHeader (text : List Char) : List Char :=
  let hint := if text.head?.any fun c => isSpace c || isBreak c then ['2'] else []
  let chomp := match text.reverse with
    | [] => ['-']
    | [c] => if isBreak c then ['+'] else ['-']
    | c :: d :: _ => if !isBreak c then ['-'] else if isBreak d then ['+'] else []
  hint ++ chomp

/-- A text in a style; its further lines are indented. -/
def writeAs (style : Style) (indent : Nat) (text : List Char) : List Char :=
  match style with
  | .plain => text
  | .single => '\'' :: singleContent indent false text ++ ['\'']
  | .double => '"' :: text.flatMap doubleChar ++ ['"']
  | .literal => '|' :: literalHeader text ++ '\n' :: literalContent indent true text

end ManifestSync.Yaml
