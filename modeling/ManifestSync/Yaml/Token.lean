import ManifestSync.Yaml.Spot

/-!
# Tokens of YAML

A YAML text is a sequence of tokens; indentation appears among them as the start and end of block
collections. `Token.scan?` reads them in one pass over the spots of a text. A key that is not marked
by a question mark is only known to be one when its colon is met: until then it is kept as a pending
key, and its tokens are put into the sequence afterwards.
-/

namespace ManifestSync.Yaml

/-- A token of YAML. -/
inductive Token where
  | version (major minor : Nat)
  | tagDirective (handle stem : List Char)
  | documentStart
  | documentEnd
  | blockSequenceStart
  | blockMappingStart
  | blockEnd
  | flowSequenceStart
  | flowSequenceEnd
  | flowMappingStart
  | flowMappingEnd
  | blockEntry
  | flowEntry
  | key
  | value
  | alias (name : List Char)
  | anchor (name : List Char)
  | tag (handle suffix : List Char)
  | scalar (text : List Char) (plain : Bool)
  deriving DecidableEq, Repr, Inhabited

/-! ## Scalars without quotes -/

/-- Whether a character ends a plain scalar between brackets. -/
def isFlowIndicator (c : Char) : Bool :=
  c == ',' || c == '[' || c == ']' || c == '{' || c == '}'

/-- One word of a plain scalar. Between brackets, a colon before another indicator is refused. -/
def plainWord (flow : Bool) : List Spot → Option (List Char × List Spot)
  | [] => some ([], [])
  | s :: rest =>
    if isSpaceOrTab s.char || isBreak s.char then some ([], s :: rest)
    else if flow && s.char == ':' && headIs (fun c => isFlowIndicator c || c == '?') rest then none
    else if (s.char == ':' && atGap rest) || (flow && isFlowIndicator s.char) then
      some ([], s :: rest)
    else (plainWord flow rest).map fun (word, rest) => (s.char :: word, rest)

/-- Whether the next spot is left of a column. -/
def leftOf (column : Nat) : List Spot → Bool
  | [] => false
  | s :: _ => s.column < column

/-- A plain scalar behind a gap: its words, whether a line has been begun behind the last of them,
and the spots behind it. Outside brackets all its lines are indented to a column. -/
def plainText (flow : Bool) (column : Nat) : Nat → Gap → List Spot →
    Option (List Char × Bool × List Spot)
  | 0, _, _ => none
  | fuel + 1, gap, spots =>
    if atDocumentMark spots || startsWith '#' spots then some ([], !gap.breaks.isEmpty, spots)
    else do
      let (word, rest) ← plainWord flow spots
      if rest.isEmpty || !atGap rest then
        if word.isEmpty then return ([], !gap.breaks.isEmpty, rest)
        else return (gap.folded ++ word, false, rest)
      else
        let (next, rest) ← readGap (· < column) ⟨[], []⟩ rest
        if !flow && leftOf column rest then
          return (gap.folded ++ word, !next.breaks.isEmpty, rest)
        else
          let (more, begun, rest) ← plainText flow column fuel next rest
          return (gap.folded ++ word ++ more, begun, rest)

/-! ## Scalars in quotes -/

/-- One word between single quotes: a quote in it is written twice. -/
def singleWord : List Spot → List Char × List Spot
  | [] => ([], [])
  | s :: rest =>
    if isSpaceOrTab s.char || isBreak s.char then ([], s :: rest)
    else if s.char == '\'' then
      match rest with
      | t :: rest =>
        if t.char == '\'' then
          let (word, rest) := singleWord rest
          ('\'' :: word, rest)
        else ([], s :: t :: rest)
      | [] => ([], [s])
    else
      let (word, rest) := singleWord rest
      (s.char :: word, rest)

/-- The character that an escape of one letter stands for. -/
def escapeLetter? (c : Char) : Option Char :=
  match c with
  | '0' => some '\x00'
  | 'a' => some '\x07'
  | 'b' => some '\x08'
  | 't' => some '\t'
  | '\t' => some '\t'
  | 'n' => some '\n'
  | 'v' => some '\x0b'
  | 'f' => some '\x0c'
  | 'r' => some '\r'
  | 'e' => some '\x1b'
  | ' ' => some ' '
  | '"' => some '"'
  | '/' => some '/'
  | '\\' => some '\\'
  | 'N' => some '\u0085'
  | '_' => some '\u00a0'
  | 'L' => some '\u2028'
  | 'P' => some '\u2029'
  | _ => none

/-- The number of digits behind the letter of a numeric escape. -/
def escapeWidth? (c : Char) : Option Nat :=
  match c with
  | 'x' => some 2
  | 'u' => some 4
  | 'U' => some 8
  | _ => none

/-- The value of a hexadecimal digit. -/
def hexValue? (c : Char) : Option Nat :=
  if '0' ≤ c && c ≤ '9' then some (c.toNat - '0'.toNat)
  else if 'a' ≤ c && c ≤ 'f' then some (c.toNat - 'a'.toNat + 10)
  else if 'A' ≤ c && c ≤ 'F' then some (c.toNat - 'A'.toNat + 10)
  else none

/-- The number that hexadecimal digits denote. -/
def hexNumber? (digits : List Char) : Option Nat :=
  digits.foldlM (fun n c => (hexValue? c).map (16 * n + ·)) 0

/-- The character with a code point. -/
def charOf? (n : Nat) : Option Char :=
  if n.isValidChar then some (Char.ofNat n) else none

/-- The character that an escape stands for, given the spots behind its backslash, and the number
of these spots that belong to it. -/
def escape? : List Spot → Option (Char × Nat)
  | [] => none
  | s :: rest =>
    match escapeLetter? s.char with
    | some c => some (c, 1)
    | none => do
      let width ← escapeWidth? s.char
      let digits := (rest.take width).map (·.char)
      if digits.length < width then none
      else return (← charOf? (← hexNumber? digits), width + 1)

/-- One word between double quotes, and whether an escaped line break ends it. -/
def doubleWord : Nat → List Spot → Option (List Char × Bool × List Spot)
  | 0, _ => none
  | _ + 1, [] => some ([], false, [])
  | fuel + 1, s :: rest =>
    if isSpaceOrTab s.char || isBreak s.char || s.char == '"' then some ([], false, s :: rest)
    else if s.char == '\\' then
      if headIs isBreak rest then some ([], true, rest.drop 1)
      else do
        let (c, width) ← escape? rest
        let (word, broken, rest) ← doubleWord fuel (rest.drop width)
        return (c :: word, broken, rest)
    else do
      let (word, broken, rest) ← doubleWord fuel rest
      return (s.char :: word, broken, rest)

/-- A scalar up to its closing quote, and the spots behind that. A mark of a document's start or end
is refused in it. Behind an escaped line break the next line goes on without a space. -/
def quotedText (quote : Char) : Nat → List Spot → Option (List Char × List Spot)
  | 0, _ => none
  | fuel + 1, spots =>
    if atDocumentMark spots || spots.isEmpty then none
    else do
      let (word, broken, rest) ←
        if quote == '"' then doubleWord (spots.length + 1) spots
        else
          let (word, rest) := singleWord spots
          some (word, false, rest)
      if startsWith quote rest then return (word, rest.drop 1)
      else
        let (gap, rest) ← readGap (fun _ => false) ⟨[], []⟩ rest
        let indented := if broken then gap.breaks else gap.folded
        let (more, rest) ← quotedText quote fuel rest
        return (word ++ indented ++ more, rest)

/-! ## Block scalars -/

/-- What is kept of the line breaks at the end of a block scalar. -/
inductive Chomp where
  | strip
  | clip
  | keep
  deriving DecidableEq, Repr

/-- The header of a block scalar: what is kept at its end, and its indentation if that is given. -/
def blockHeader : List Spot → Option (Chomp × Nat × List Spot)
  | [] => some (.clip, 0, [])
  | s :: rest =>
    let chomp? (c : Char) : Option Chomp :=
      if c == '+' then some .keep else if c == '-' then some .strip else none
    let digit? (c : Char) : Option Nat :=
      if '0' ≤ c && c ≤ '9' then some (c.toNat - '0'.toNat) else none
    match chomp? s.char, digit? s.char with
    | some chomp, _ =>
      match rest with
      | [] => some (chomp, 0, [])
      | t :: more =>
        match digit? t.char with
        | some 0 => none
        | some n => some (chomp, n, more)
        | none => some (chomp, 0, rest)
    | none, some 0 => none
    | none, some n =>
      match rest with
      | [] => some (.clip, n, [])
      | t :: more =>
        match chomp? t.char with
        | some chomp => some (chomp, n, more)
        | none => some (.clip, n, rest)
    | none, none => some (.clip, 0, s :: rest)

/-- Drops the spaces and the comment at the end of a line together with its break. Anything else
there is refused. -/
def restOfLine (spots : List Spot) : Option (List Spot) :=
  let rest := (spanClass isSpaceOrTab spots).2
  let rest := if startsWith '#' rest then (spanClass (!isBreak ·) rest).2 else rest
  if atLineEnd rest then some (rest.drop 1) else none

/-- Reads empty lines of a block scalar and the indentation of the next line: the line breaks, the
greatest column reached, and the spots from the first character of text on. An indentation of zero
is not known yet. A tab within the indentation is refused. -/
def blockBreaks (indent : Nat) : Nat → List Spot → Option (List Char × Nat × List Spot)
  | widest, [] => some ([], widest, [])
  | widest, s :: rest =>
    let within := indent == 0 || s.column < indent
    if within && s.char == ' ' then blockBreaks indent (max widest (s.column + 1)) rest
    else if within && s.char == '\t' then none
    else if isBreak s.char then
      (blockBreaks indent (max widest s.column) rest).map fun (breaks, widest, rest) =>
        (s.char :: breaks, widest, rest)
    else some ([], max widest s.column, s :: rest)

/-- What has been read of a block scalar: its text, and the line breaks behind that, first the one
that ends the last line. -/
structure BlockText where
  text : List Char := []
  ending : List Char := []
  breaks : List Char := []
  /-- Whether the last line began with white space. -/
  spaced : Bool := false

/-- Adds a line of a block scalar. In a folded scalar a single line break between two lines that do
not begin with white space becomes a space. -/
def BlockText.addLine (folded : Bool) (t : BlockText) (line ending breaks : List Char) :
    BlockText :=
  let spaced := match line with
    | c :: _ => isSpaceOrTab c
    | [] => false
  let joint :=
    if folded && t.ending == ['\n'] && !t.spaced && !spaced then
      if t.breaks.isEmpty then [' '] else t.breaks
    else t.ending ++ t.breaks
  ⟨t.text ++ joint ++ line, ending, breaks, spaced⟩

/-- Reads the lines of a block scalar. -/
def blockLines (folded : Bool) (indent : Nat) : Nat → BlockText → List Spot →
    Option (BlockText × List Spot)
  | 0, _, _ => none
  | _ + 1, t, [] => some (t, [])
  | fuel + 1, t, s :: rest =>
    if s.column == indent then do
      let (line, rest) := spanClass (!isBreak ·) (s :: rest)
      let ending := (rest.take 1).map (·.char)
      let (breaks, _, rest) ← blockBreaks indent 0 (rest.drop 1)
      blockLines folded indent fuel (t.addLine folded line ending breaks) rest
    else some (t, s :: rest)

/-- A block scalar behind its indicator, inside collections that are indented to columns below
`floor`. -/
def blockScalar (folded : Bool) (floor : Nat) (spots : List Spot) :
    Option (List Char × List Spot) := do
  let (chomp, given, rest) ← blockHeader spots
  let rest ← restOfLine rest
  let known := if given = 0 then 0 else floor - 1 + given
  let (breaks, widest, rest) ← blockBreaks known 0 rest
  let indent := if known = 0 then max (max widest floor) 1 else known
  let (t, rest) ← blockLines folded indent (rest.length + 1) { breaks } rest
  let tail := match chomp with
    | .strip => []
    | .clip => t.ending
    | .keep => t.ending ++ t.breaks
  return (t.text ++ tail, rest)

/-! ## Names, tags and directives -/

/-- Whether a character may occur in the name of an anchor or a tag handle. -/
def isNameChar (c : Char) : Bool :=
  ('0' ≤ c && c ≤ '9') || ('A' ≤ c && c ≤ 'Z') || ('a' ≤ c && c ≤ 'z') || c == '_' || c == '-'

/-- The character of the grave accent, which no YAML token may begin with. -/
def graveAccent : Char := Char.ofNat 96

/-- The name of an anchor or alias behind its indicator. -/
def anchorName (spots : List Spot) : Option (List Char × List Spot) :=
  let (name, rest) := spanClass isNameChar spots
  let follows (c : Char) : Bool :=
    c == '?' || c == ':' || c == ',' || c == ']' || c == '}' || c == '%' || c == '@'
      || c == graveAccent
  if !name.isEmpty && (atGap rest || headIs follows rest) then some (name, rest) else none

/-- Whether a character may occur in the suffix of a tag. -/
def isTagChar (verbatim : Bool) (c : Char) : Bool :=
  isNameChar c || c == ';' || c == '/' || c == '?' || c == ':' || c == '@' || c == '&' || c == '='
    || c == '+' || c == '$' || c == '.' || c == '!' || c == '~' || c == '*' || c == '\''
    || c == '(' || c == ')' || (verbatim && (c == ',' || c == '[' || c == ']'))

/-- The byte that is written as a percent sign and two hexadecimal digits. -/
def percentByte : List Spot → Option (UInt8 × List Spot)
  | p :: h :: l :: rest =>
    if p.char == '%' then do
      let high ← hexValue? h.char
      let low ← hexValue? l.char
      return (UInt8.ofNat (16 * high + low), rest)
    else none
  | _ => none

/-- A number of bytes that are written with percent signs. -/
def percentBytes : Nat → List Spot → Option (List UInt8 × List Spot)
  | 0, spots => some ([], spots)
  | n + 1, spots => do
    let (b, rest) ← percentByte spots
    let (bytes, rest) ← percentBytes n rest
    return (b :: bytes, rest)

/-- A character whose bytes are written with percent signs. -/
def percentChar (spots : List Spot) : Option (List Char × List Spot) := do
  let (lead, _) ← percentByte spots
  let width := match Text.Partial.ofLead? lead with
    | some p => p.needed + 1
    | none => 1
  let (bytes, rest) ← percentBytes width spots
  return (← Text.decode? bytes, rest)

/-- The suffix of a tag. -/
def tagText (verbatim : Bool) : Nat → List Spot → Option (List Char × List Spot)
  | 0, _ => none
  | _ + 1, [] => some ([], [])
  | fuel + 1, s :: rest =>
    if s.char == '%' then do
      let (c, rest) ← percentChar (s :: rest)
      let (more, rest) ← tagText verbatim fuel rest
      return (c ++ more, rest)
    else if isTagChar verbatim s.char then do
      let (more, rest) ← tagText verbatim fuel rest
      return (s.char :: more, rest)
    else some ([], s :: rest)

/-- The suffix of a tag; it must not be empty. -/
def tagSuffix (verbatim : Bool) (spots : List Spot) : Option (List Char × List Spot) :=
  (tagText verbatim (spots.length + 1) spots).filter (!·.1.isEmpty)

/-- A tag handle: an exclamation mark, and perhaps a name with another one behind it. -/
def tagHandle (spots : List Spot) : List Char × List Spot :=
  let (name, rest) := spanClass isNameChar (spots.drop 1)
  if startsWith '!' rest then ('!' :: name ++ ['!'], rest.drop 1) else ('!' :: name, rest)

/-- A tag, from its exclamation mark on. A verbatim tag has no handle, and nor has the mark alone. -/
def readTag (flow : Bool) (spots : List Spot) : Option (Token × List Spot) := do
  let (token, rest) ←
    if startsWith '<' (spots.drop 1) then do
      let (suffix, rest) ← tagSuffix true (spots.drop 2)
      if startsWith '>' rest then some (Token.tag [] suffix, rest.drop 1) else none
    else
      let (handle, rest) := tagHandle spots
      if handle.length ≥ 2 && handle.getLast? == some '!' then do
        let (suffix, rest) ← tagSuffix false rest
        some (Token.tag handle suffix, rest)
      else do
        let (more, rest) ← tagText false (rest.length + 1) rest
        let suffix := handle.drop 1 ++ more
        if suffix.isEmpty then some (Token.tag [] ['!'], rest)
        else some (Token.tag ['!'] suffix, rest)
  if atGap rest || (flow && startsWith ',' rest) then some (token, rest) else none

/-- A number of at most nine digits in a directive. -/
def versionNumber (spots : List Spot) : Option (Nat × List Spot) :=
  let (digits, rest) := spanClass (fun c => '0' ≤ c && c ≤ '9') spots
  if digits.isEmpty || 9 < digits.length then none
  else some (digits.foldl (fun n c => 10 * n + (c.toNat - '0'.toNat)) 0, rest)

/-- The version of a version directive. -/
def readVersion (spots : List Spot) : Option (Token × List Spot) := do
  let (major, rest) ← versionNumber (spanClass isSpaceOrTab spots).2
  if startsWith '.' rest then
    let (minor, rest) ← versionNumber (rest.drop 1)
    return (.version major minor, rest)
  else none

/-- The handle and the stem of a tag directive. -/
def readTagDirective (spots : List Spot) : Option (Token × List Spot) := do
  let rest := (spanClass isSpaceOrTab spots).2
  if !startsWith '!' rest then none
  else
    let (handle, rest) := tagHandle rest
    if handle != ['!'] && handle.getLast? != some '!' then none
    else if !headIs isSpaceOrTab rest then none
    else
      let (stem, rest) ← tagSuffix true (spanClass isSpaceOrTab rest).2
      if atGap rest then some (.tagDirective handle stem, rest) else none

/-- A directive behind its percent sign, with the rest of its line. -/
def readDirective (spots : List Spot) : Option (Token × List Spot) := do
  let (name, rest) := spanClass isNameChar spots
  if !atGap rest then none
  else
    let (token, rest) ←
      if name == "YAML".toList then readVersion rest
      else if name == "TAG".toList then readTagDirective rest
      else none
    return (token, ← restOfLine rest)

/-! ## The scan -/

/-- A place where a key may have begun. -/
structure PendingKey where
  /-- Whether a colon must follow, because nothing but a key can stand there. -/
  required : Bool
  /-- The number of tokens in front of it. -/
  position : Nat
  spot : Spot

/-- The state of a scan. -/
structure Scan where
  /-- The tokens read, the last one first. -/
  tokens : List Token := []
  /-- The number of tokens read. -/
  count : Nat := 0
  /-- The columns of the open block collections, the innermost first. -/
  columns : List Nat := []
  /-- Whether a key without a question mark may begin here. -/
  keyAllowed : Bool := true
  /-- The pending key, if there is one, of each open pair of brackets and, last, of the block
  around them. -/
  keys : List (Option PendingKey) := [none]

namespace Scan

/-- Whether the scan is between brackets. -/
def inFlow (s : Scan) : Bool := 1 < s.keys.length

/-- The least column of a block collection inside the open ones. -/
def floor (s : Scan) : Nat :=
  match s.columns with
  | [] => 0
  | column :: _ => column + 1

/-- Adds a token. -/
def push (s : Scan) (token : Token) : Scan :=
  { s with tokens := token :: s.tokens, count := s.count + 1 }

/-- Puts a token behind the first `position` ones. -/
def insertAt (s : Scan) (position : Nat) (token : Token) : Scan :=
  let behind := s.count - position
  { s with
    tokens := s.tokens.take behind ++ token :: s.tokens.drop behind
    count := s.count + 1 }

/-- Opens a block collection at a column right of the open ones; its token is put behind the first
`position` ones. -/
def openBlock (s : Scan) (column position : Nat) (token : Token) : Scan :=
  if s.inFlow || column < s.floor then s
  else { s.insertAt position token with columns := column :: s.columns }

/-- Closes the block collections right of a column, or all of them. -/
def closeBlocks (s : Scan) (column : Option Nat) : Scan :=
  if s.inFlow then s
  else
    let closes (c : Nat) : Bool := column.all (· < c)
    let closed := (s.columns.takeWhile closes).length
    { s with
      tokens := List.replicate closed .blockEnd ++ s.tokens
      count := s.count + closed
      columns := s.columns.drop closed }

/-- Gives up the pending key of the innermost brackets, unless it is required. -/
def dropKey (s : Scan) : Option Scan :=
  match s.keys with
  | some key :: rest => if key.required then none else some { s with keys := none :: rest }
  | _ => some s

/-- Makes a spot a pending key, if a key may begin there. -/
def saveKey (s : Scan) (spot : Spot) : Option Scan :=
  if !s.keyAllowed then some s
  else do
    let s ← s.dropKey
    let required := !s.inFlow && s.columns.head? == some spot.column
    return { s with keys := some ⟨required, s.count, spot⟩ :: s.keys.drop 1 }

/-- Gives up the pending keys that are too far away: on another line, or more than 1024 characters
back. A required one must not be. -/
def dropFarKeys (s : Scan) (spot : Spot) : Option Scan := do
  let keys ← s.keys.mapM fun
    | none => some none
    | some key =>
      if key.spot.line < spot.line || key.spot.index + 1024 < spot.index then
        if key.required then none else some none
      else some (some key)
  return { s with keys }

/-- A token that begins a node and may begin a key. -/
def pushNode (s : Scan) (spot : Spot) (token : Token) : Option Scan := do
  let s ← s.saveKey spot
  return { s.push token with keyAllowed := false }

/-- A token outside all collections. -/
def pushTop (s : Scan) (token : Token) : Option Scan := do
  let s ← (s.closeBlocks none).dropKey
  return { s.push token with keyAllowed := false }

/-- An opening bracket. -/
def openFlow (s : Scan) (spot : Spot) (token : Token) : Option Scan := do
  let s ← s.saveKey spot
  return { s.push token with keys := none :: s.keys, keyAllowed := true }

/-- A closing bracket. -/
def closeFlow (s : Scan) (token : Token) : Option Scan := do
  let s ← s.dropKey
  let keys := if s.inFlow then s.keys.drop 1 else s.keys
  return { s.push token with keys, keyAllowed := false }

/-- A comma between brackets. -/
def flowEntry (s : Scan) : Option Scan := do
  let s ← s.dropKey
  return { s.push .flowEntry with keyAllowed := true }

/-- A hyphen before an item of a block sequence. -/
def blockEntry (s : Scan) (spot : Spot) : Option Scan := do
  if !s.inFlow && !s.keyAllowed then none
  else
    let s ← (s.openBlock spot.column s.count .blockSequenceStart).dropKey
    return { s.push .blockEntry with keyAllowed := true }

/-- A question mark before a key. -/
def explicitKey (s : Scan) (spot : Spot) : Option Scan := do
  if !s.inFlow && !s.keyAllowed then none
  else
    let s ← (s.openBlock spot.column s.count .blockMappingStart).dropKey
    return { s.push .key with keyAllowed := !s.inFlow }

/-- A colon. It makes the pending key a key; without one, it stands before the value of an empty or
explicit key. -/
def valueMark (s : Scan) (spot : Spot) : Option Scan :=
  match s.keys with
  | some key :: rest =>
    let s := s.insertAt key.position .key
    let s := s.openBlock key.spot.column key.position .blockMappingStart
    some { s.push .value with keys := none :: rest, keyAllowed := false }
  | _ =>
    if !s.inFlow && !s.keyAllowed then none
    else
      let s := s.openBlock spot.column s.count .blockMappingStart
      some { s.push .value with keyAllowed := !s.inFlow }

/-- Skips white space, comments and line breaks. Behind a line break outside brackets a key may
begin; where one may begin, a tab is no white space. -/
def skipGaps (s : Scan) : Bool → List Spot → Scan × List Spot
  | _, [] => (s, [])
  | comment, c :: rest =>
    if isBreak c.char then
      skipGaps { s with keyAllowed := s.keyAllowed || !s.inFlow } false rest
    else if comment || c.char == ' ' || (c.char == '\t' && (s.inFlow || !s.keyAllowed)) then
      skipGaps s comment rest
    else if c.char == '#' then skipGaps s true rest
    else (s, c :: rest)

/-- Whether a character may begin a plain scalar wherever it stands. -/
def beginsPlain (c : Char) : Bool :=
  !(isSpaceOrTab c || isBreak c || isFlowIndicator c || c == '-' || c == '?' || c == ':'
    || c == '#' || c == '&' || c == '*' || c == '!' || c == '|' || c == '>' || c == '\''
    || c == '"' || c == '%' || c == '@' || c == graveAccent)

/-- A plain scalar. -/
def plainScalar (s : Scan) (spot : Spot) (spots : List Spot) : Option (Scan × List Spot) := do
  let s ← s.saveKey spot
  let (text, begun, rest) ← plainText s.inFlow s.floor (spots.length + 1) ⟨[], []⟩ spots
  return ({ s.push (.scalar text true) with keyAllowed := begun }, rest)

/-- Adds a token and goes on behind it. -/
def andRest (s : Option Scan) (rest : List Spot) : Option (Scan × List Spot) :=
  s.map (·, rest)

/-- Reads the token that begins at a spot, given the spots behind it. -/
def readToken (s : Scan) (spot : Spot) (rest : List Spot) : Option (Scan × List Spot) :=
  let spots := spot :: rest
  let flow := s.inFlow
  if spot.column == 0 && spot.char == '%' then do
    let (token, rest) ← readDirective rest
    andRest (s.pushTop token) rest
  else if lineStartsWith '-' spots then andRest (s.pushTop .documentStart) (rest.drop 2)
  else if lineStartsWith '.' spots then andRest (s.pushTop .documentEnd) (rest.drop 2)
  else match spot.char with
  | '[' => andRest (s.openFlow spot .flowSequenceStart) rest
  | '{' => andRest (s.openFlow spot .flowMappingStart) rest
  | ']' => andRest (s.closeFlow .flowSequenceEnd) rest
  | '}' => andRest (s.closeFlow .flowMappingEnd) rest
  | ',' => andRest s.flowEntry rest
  | '*' => do
    let (name, rest) ← anchorName rest
    andRest (s.pushNode spot (.alias name)) rest
  | '&' => do
    let (name, rest) ← anchorName rest
    andRest (s.pushNode spot (.anchor name)) rest
  | '!' => do
    let (token, rest) ← readTag flow spots
    andRest (s.pushNode spot token) rest
  | '\'' => do
    let (text, rest) ← quotedText '\'' (spots.length + 1) rest
    andRest (s.pushNode spot (.scalar text false)) rest
  | '"' => do
    let (text, rest) ← quotedText '"' (spots.length + 1) rest
    andRest (s.pushNode spot (.scalar text false)) rest
  | c =>
    if (c == '|' || c == '>') && !flow then do
      let s ← s.dropKey
      let (text, rest) ← blockScalar (c == '>') s.floor rest
      return ({ s.push (.scalar text false) with keyAllowed := true }, rest)
    else if c == '-' && atGap rest then andRest (s.blockEntry spot) rest
    else if c == '?' && (flow || atGap rest) then andRest (s.explicitKey spot) rest
    else if c == ':' && (flow || atGap rest) then andRest (s.valueMark spot) rest
    else if beginsPlain c || (c == '-' && !headIs isSpaceOrTab rest)
        || (!flow && (c == '?' || c == ':') && !atGap rest) then
      s.plainScalar spot spots
    else none

/-- Reads tokens to the end of the text. -/
def run : Nat → Scan → List Spot → Option Scan
  | 0, _, _ => none
  | fuel + 1, s, spots =>
    match s.skipGaps false spots with
    | (s, []) =>
      if s.keys.any fun key => key.any (·.required) then none else some (s.closeBlocks none)
    | (s, spot :: rest) => do
      let s ← s.dropFarKeys spot
      let (s, rest) ← (s.closeBlocks (some spot.column)).readToken spot rest
      run fuel s rest

end Scan

/-- The tokens of a text, if it has such. -/
def Token.scan? (text : List Char) : Option (List Token) := do
  let spots ← spots? text
  let s ← Scan.run (spots.length + 1) {} spots
  return s.tokens.reverse

end ManifestSync.Yaml
