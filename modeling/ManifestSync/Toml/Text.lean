import ManifestSync.Toml.Value

/-!
# Strings of TOML

There are four kinds: between quotation marks with escapes, between apostrophes without, each on one
line or, with three marks, on several. A reader takes what stands behind the opening marks and gives
the content with the rest behind the closing ones.
-/

namespace ManifestSync.Toml

/-- Whether a character may stand in a string or a comment: no control but the tab. -/
def isTextChar (c : Char) : Bool :=
  c == '\t' || (32 ≤ c.toNat && c.toNat ≠ 127)

/-- What stands behind a line break at the start of a text. -/
def behindBreak? : List Char → Option (List Char)
  | '\n' :: rest => some rest
  | '\r' :: '\n' :: rest => some rest
  | _ => none

/-- The character with a code point. -/
def charOf? (n : Nat) : Option Char :=
  if n.isValidChar then some (Char.ofNat n) else none

/-- The number that a count of hexadecimal digits at the start of a text denotes. -/
def hexDigits? : (count n : Nat) → List Char → Option (Nat × List Char)
  | 0, n, text => some (n, text)
  | _ + 1, _, [] => none
  | count + 1, n, c :: rest =>
    let digit? : Option Nat :=
      if c.isDigit then some (c.toNat - '0'.toNat)
      else if 'a' ≤ c && c ≤ 'f' then some (c.toNat - 'a'.toNat + 10)
      else if 'A' ≤ c && c ≤ 'F' then some (c.toNat - 'A'.toNat + 10)
      else none
    digit?.bind fun d => hexDigits? count (16 * n + d) rest

/-- The character that an escape stands for, and what is behind it. -/
def escape? : List Char → Option (Char × List Char)
  | 'b' :: rest => some ('\x08', rest)
  | 't' :: rest => some ('\t', rest)
  | 'n' :: rest => some ('\n', rest)
  | 'f' :: rest => some ('\x0c', rest)
  | 'r' :: rest => some ('\r', rest)
  | '"' :: rest => some ('"', rest)
  | '\\' :: rest => some ('\\', rest)
  | 'u' :: rest => do
    let (n, rest) ← hexDigits? 4 0 rest
    return (← charOf? n, rest)
  | 'U' :: rest => do
    let (n, rest) ← hexDigits? 8 0 rest
    return (← charOf? n, rest)
  | _ => none

/-- A string on one line. -/
def lineString? (mark : Char) (escapes : Bool) : Nat → List Char → Option (List Char × List Char)
  | 0, _ => none
  | _ + 1, [] => none
  | fuel + 1, c :: rest =>
    if c == mark then some ([], rest)
    else if escapes && c == '\\' then do
      let (c, rest) ← escape? rest
      let (more, rest) ← lineString? mark escapes fuel rest
      return (c :: more, rest)
    else if isTextChar c then do
      let (more, rest) ← lineString? mark escapes fuel rest
      return (c :: more, rest)
    else none

/-- Whether a character is a space or a tab. -/
def isSpaceOrTab (c : Char) : Bool := c == ' ' || c == '\t'

/-- What stands behind a backslash at the end of a line: all white space and line breaks after it are
passed over. -/
def behindFold? (text : List Char) : Option (List Char) :=
  (behindBreak? (text.dropWhile isSpaceOrTab)).map
    (·.dropWhile fun c => isSpaceOrTab c || c == '\n' || c == '\r')

/-- Whether no carriage return stands alone in the white space at the start of a text. -/
def breaksAreWhole : List Char → Bool
  | '\r' :: '\n' :: rest => breaksAreWhole rest
  | '\r' :: _ => false
  | c :: rest => if isSpaceOrTab c || c == '\n' then breaksAreWhole rest else true
  | [] => true

/-- A string on several lines. Up to two marks before the closing ones belong to it, and each line
break counts as a line feed. -/
def blockString? (mark : Char) (escapes : Bool) : Nat → List Char → Option (List Char × List Char)
  | 0, _ => none
  | _ + 1, [] => none
  | fuel + 1, c :: rest =>
    if c == mark then
      let marks := (c :: rest).takeWhile (· == mark)
      let count := min marks.length 5
      let behind := (c :: rest).drop count
      if 3 ≤ count then some (List.replicate (count - 3) mark, behind)
      else do
        let (more, rest) ← blockString? mark escapes fuel behind
        return (List.replicate count mark ++ more, rest)
    else if escapes && c == '\\' then
      match behindFold? rest with
      | some next =>
        if breaksAreWhole (rest.dropWhile isSpaceOrTab) then blockString? mark escapes fuel next
        else none
      | none => do
        let (c, rest) ← escape? rest
        let (more, rest) ← blockString? mark escapes fuel rest
        return (c :: more, rest)
    else match behindBreak? (c :: rest) with
      | some next => do
        let (more, rest) ← blockString? mark escapes fuel next
        return ('\n' :: more, rest)
      | none =>
        if isTextChar c then do
          let (more, rest) ← blockString? mark escapes fuel rest
          return (c :: more, rest)
        else none

/-- A string, from its opening marks on. A line break right behind three of them is dropped. -/
def string? (text : List Char) : Option (List Char × List Char) :=
  match text with
  | a :: b :: c :: rest =>
    if a == '"' || a == '\'' then
      if b == a && c == a then
        blockString? a (a == '"') (rest.length + 1) ((behindBreak? rest).getD rest)
      else lineString? a (a == '"') (text.length + 1) (b :: c :: rest)
    else none
  | a :: rest =>
    if a == '"' || a == '\'' then lineString? a (a == '"') (text.length + 1) rest else none
  | [] => none

/-! ## Writing -/

/-- The length of the longest run of a character. -/
def longestRun (mark : Char) : (current longest : Nat) → List Char → Nat
  | current, longest, [] => max current longest
  | current, longest, c :: rest =>
    if c == mark then longestRun mark (current + 1) longest rest
    else longestRun mark 0 (max current longest) rest

/-- Whether a character needs an escape in every string. -/
def needsEscape (c : Char) : Bool := !isTextChar c && c != '\n'

/-- Four hexadecimal digits in upper case. -/
def fourDigits (n : Nat) : List Char :=
  let digit (n : Nat) : Char := if n < 10 then Nat.digitChar n else Char.ofNat (n + 55)
  [digit (n / 4096 % 16), digit (n / 256 % 16), digit (n / 16 % 16), digit (n % 16)]

/-- A character in a string with escapes, other than a quotation mark. -/
def escapedChar (multiline : Bool) (c : Char) : List Char :=
  match c with
  | '\x08' => ['\\', 'b']
  | '\t' => ['\\', 't']
  | '\n' => if multiline then ['\n'] else ['\\', 'n']
  | '\x0c' => ['\\', 'f']
  | '\r' => ['\\', 'r']
  | '\\' => ['\\', '\\']
  | c => if isTextChar c then [c] else ['\\', 'u'] ++ fourDigits c.toNat

/-- The content of a string with escapes. On one line each quotation mark is escaped, on several
lines each third one in a row. -/
def escapedContent (multiline : Bool) : (marks : Nat) → List Char → List Char
  | _, [] => []
  | marks, c :: rest =>
    if c == '"' then
      if multiline && marks < 2 then c :: escapedContent multiline (marks + 1) rest
      else '\\' :: c :: escapedContent multiline 0 rest
    else escapedChar multiline c ++ escapedContent multiline 0 rest

/-- Three marks, with a line break behind them if the text has one. -/
def blockStart (mark : Char) (text : List Char) : List Char :=
  List.replicate 3 mark ++ if text.contains '\n' then ['\n'] else []

/-- A string in the first kind of these that needs no escape: quotation marks, apostrophes, three
quotation marks, three apostrophes; else with escapes. -/
def renderString (text : List Char) : List Char :=
  let multiline := text.contains '\n'
  let quotes := longestRun '"' 0 0 text
  let apostrophes := longestRun '\'' 0 0 text
  let escapes := text.any needsEscape
  let backslash := text.contains '\\'
  let block := blockStart '"' text ++ escapedContent true 0 text ++ List.replicate 3 '"'
  let line := '"' :: escapedContent false 0 text ++ ['"']
  if !escapes && !backslash && quotes = 0 && !multiline then line
  else if !escapes && apostrophes = 0 && !multiline then '\'' :: text ++ ['\'']
  else if !escapes && !backslash && quotes ≤ 2 then block
  else if !escapes && apostrophes ≤ 2 then
    blockStart '\'' text ++ text ++ List.replicate 3 '\''
  else if multiline then block
  else line

end ManifestSync.Toml
