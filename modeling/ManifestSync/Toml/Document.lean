import ManifestSync.Toml.Number
import ManifestSync.Toml.Section
import ManifestSync.Toml.Text

/-!
# Reading a TOML document

A document is a sequence of lines: assignments, headers of tables, comments and empty lines.
`parse?` gives the entries of its root table; it refuses a text that is not well formed, a key that
is given twice and a table that is written in a way that its other parts do not allow.
-/

namespace ManifestSync.Toml

/-- The number of arrays and inline tables that may be nested, and of dotted keys in a row. -/
def maxNesting : Nat := 80

/-- What stands behind the spaces and tabs at the start of a text. -/
def skipSpaces (text : List Char) : List Char := text.dropWhile isSpaceOrTab

/-- What stands behind a comment at the start of a text. -/
def skipComment (text : List Char) : List Char :=
  match text with
  | '#' :: rest => rest.dropWhile isTextChar
  | _ => text

/-- What stands behind white space, comments and line breaks. -/
def skipLines : Nat → List Char → List Char
  | 0, text => text
  | fuel + 1, text =>
    let rest := skipComment (skipSpaces text)
    match behindBreak? rest with
    | some next => skipLines fuel next
    | none => rest

/-- What stands behind the end of a line, with white space and a comment in front of it. -/
def endOfLine? (text : List Char) : Option (List Char) :=
  match skipComment (skipSpaces text) with
  | [] => some []
  | rest => behindBreak? rest

/-- Whether a character may occur in a key without quotes. -/
def isKeyChar (c : Char) : Bool := c.isAlphanum || c == '_' || c == '-'

/-- One key: bare, or a string on one line. -/
def simpleKey? (text : List Char) : Option (String × List Char) :=
  match text with
  | [] => none
  | c :: rest =>
    if c == '"' || c == '\'' then
      (lineString? c (c == '"') (text.length + 1) rest).map fun (key, rest) =>
        (String.ofList key, rest)
    else
      let key := text.takeWhile isKeyChar
      if key.isEmpty then none else some (String.ofList key, text.dropWhile isKeyChar)

/-- Keys with dots between them; white space may stand around each. -/
def dottedKey? : Nat → List Char → Option (List String × List Char)
  | 0, _ => none
  | fuel + 1, text => do
    let (key, rest) ← simpleKey? (skipSpaces text)
    let rest := skipSpaces rest
    match rest with
    | '.' :: rest =>
      let (keys, rest) ← dottedKey? fuel rest
      return (key :: keys, rest)
    | _ => return ([key], rest)

/-- A path of keys and the last key. -/
def path? (text : List Char) : Option (List String × String × List Char) := do
  let (keys, rest) ← dottedKey? (text.length + 1) text
  if maxNesting ≤ keys.length then none
  return (keys.dropLast, ← keys.getLast?, rest)

/-- A word, or a date and a time with one space in between. -/
def word? (text : List Char) : Option (Value × List Char) :=
  let word := text.takeWhile isWordChar
  let rest := text.dropWhile isWordChar
  match rest with
  | ' ' :: next =>
    let time := next.takeWhile isWordChar
    if isDate word && isZonedTime time then
      some (.moment (String.ofList (word ++ ' ' :: time)), next.dropWhile isWordChar)
    else (ofWord? word).map (·, rest)
  | _ => (ofWord? word).map (·, rest)

mutual

/-- A value, with `depth` collections around it. -/
def value? (depth : Nat) : Nat → List Char → Option (Value × List Char)
  | 0, _ => none
  | _ + 1, [] => none
  | fuel + 1, c :: rest =>
    if c == '"' || c == '\'' then
      (string? (c :: rest)).map fun (text, rest) => (.string (String.ofList text), rest)
    else if c == '[' then
      if maxNesting ≤ depth + 1 then none
      else do
        let (items, rest) ← items? (depth + 1) fuel (skipLines (rest.length + 1) rest)
        return (.array items, rest)
    else if c == '{' then
      if maxNesting ≤ depth + 1 then none
      else do
        let (pairs, rest) ← pairs? (depth + 1) true fuel (skipSpaces rest)
        let s ← pairs.foldlM (fun s (path, key, v) => Section.assign path key v s) ({} : Section)
        return (.table (Item.entriesToValues s.entries), rest)
    else word? (c :: rest)

/-- The items of an array and its closing bracket. -/
def items? (depth : Nat) : Nat → List Char → Option (List Value × List Char)
  | 0, _ => none
  | _ + 1, [] => none
  | fuel + 1, c :: rest =>
    if c == ']' then some ([], rest)
    else do
      let (item, rest) ← value? depth fuel (c :: rest)
      match skipLines (rest.length + 1) rest with
      | ',' :: rest =>
        let (items, rest) ← items? depth fuel (skipLines (rest.length + 1) rest)
        return (item :: items, rest)
      | ']' :: rest => return ([item], rest)
      | _ => none

/-- The pairs of an inline table and its closing bracket. A comma stands between two pairs. -/
def pairs? (depth : Nat) (first : Bool) : Nat → List Char →
    Option (List (List String × String × Value) × List Char)
  | 0, _ => none
  | _ + 1, [] => none
  | fuel + 1, c :: rest =>
    if first && c == '}' then some ([], rest)
    else do
      let (path, key, rest) ← path? (c :: rest)
      let rest ← behind? '=' rest
      let (v, rest) ← value? depth fuel (skipSpaces rest)
      match skipSpaces rest with
      | ',' :: rest =>
        let (pairs, rest) ← pairs? depth false fuel (skipSpaces rest)
        return ((path, key, v) :: pairs, rest)
      | '}' :: rest => return ([(path, key, v)], rest)
      | _ => none

end

/-- A header, from its bracket on. -/
def header? (text : List Char) : Option (Statement × List Char) :=
  match text with
  | '[' :: '[' :: rest => do
    let (path, key, rest) ← path? rest
    return (.element path key, ← behind? ']' (← behind? ']' rest))
  | '[' :: rest => do
    let (path, key, rest) ← path? rest
    return (.header path key, ← behind? ']' rest)
  | _ => none

/-- An assignment. -/
def assignment? (text : List Char) : Option (Statement × List Char) := do
  let (path, key, rest) ← path? text
  let rest ← behind? '=' rest
  let (v, rest) ← value? 0 (rest.length + 1) (skipSpaces rest)
  return (.assign path key v, rest)

/-- The statements of a text, one on a line. -/
def statements? : Nat → List Char → Option (List Statement)
  | 0, _ => none
  | fuel + 1, text =>
    let start := skipSpaces text
    match start with
    | [] => some []
    | c :: _ =>
      if c == '#' || c == '\n' || c == '\r' then
        (endOfLine? start).bind (statements? fuel)
      else do
        let (statement, rest) ← if c == '[' then header? start else assignment? start
        let rest ← endOfLine? rest
        let more ← statements? fuel rest
        return statement :: more

/-- The entries of the document that a text holds. A byte order mark at its start is dropped. -/
def parse? (text : List Char) : Option (List (String × Value)) := do
  let text := match text with
    | '\uFEFF' :: rest => rest
    | _ => text
  Outline.ofStatements? (← statements? (text.length + 1) text)

end ManifestSync.Toml
