import ManifestSync.Source.Region

/-!
# Walking over a source text

This is no parser: the walk goes over the bytes of a script once and keeps just enough state to
tell code from literals and comments, and to know how many parentheses are open. Each byte gives one
`Token`, except the `*` of the two bytes that open a block comment, which gives none.

A literal in single or double quotes that is not closed ends at the end of its line; a template
literal runs over lines. An opening `/*` and a closing `*/` never share their star, so that `/*/`
leaves its comment open.
-/

namespace ManifestSync.Source

/-- The three delimiters of string literals. -/
inductive Quote where
  | single
  | double
  | template
  deriving DecidableEq, Repr

namespace Quote

/-- The byte that opens and closes the literal. -/
def byte : Quote → UInt8
  | single => 39
  | double => 34
  | template => 96

/-- The region of the literal's bytes, delimiters included. -/
def region : Quote → Region
  | single => .singleQuote
  | double => .doubleQuote
  | template => .template

/-- The delimiter that a byte is, if it is one. -/
def ofByte? (b : UInt8) : Option Quote :=
  if b = single.byte then some single
  else if b = double.byte then some double
  else if b = template.byte then some template
  else none

end Quote

/-- Where a walk stands between two bytes. -/
inductive Mode where
  /-- In code. -/
  | code
  /-- In a literal; `escaped` tells that a backslash came just before. -/
  | literal (quote : Quote) (escaped : Bool)
  /-- In a comment that ends with its line. -/
  | lineComment
  /-- Before the `*` that completes the opening of a block comment. -/
  | blockOpening
  /-- In a block comment. -/
  | blockComment
  /-- Before the `/` that closes a block comment. -/
  | blockClosing
  deriving DecidableEq, Repr

/-- One classified byte of a walk. -/
structure Token where
  /-- Offset of the byte in the text. -/
  offset : Nat
  /-- The byte itself. -/
  byte : UInt8
  /-- What the byte belongs to. -/
  region : Region
  /-- Open parentheses before the byte, counted from the start of the walk. -/
  depth : Nat
  deriving DecidableEq, Repr

namespace Token

/-- Whether the token is the given byte in code. -/
def isCode (t : Token) (b : UInt8) : Bool :=
  t.region == .code && t.byte == b

end Token

/-- The byte of a line feed. -/
def lineFeed : UInt8 := 10

/-- The byte of a backslash. -/
def backslash : UInt8 := 92

/-- The byte of a slash. -/
def slash : UInt8 := 47

/-- The byte of a star. -/
def star : UInt8 := 42

/-- The byte of an opening parenthesis. -/
def openParen : UInt8 := 40

/-- The byte of a closing parenthesis. -/
def closeParen : UInt8 := 41

/-- State of a walk: its mode and the number of open parentheses. -/
structure Walk where
  mode : Mode
  depth : Nat
  deriving DecidableEq, Repr

namespace Walk

/-- A walk starts in code with no parenthesis open. -/
def start : Walk := ⟨.code, 0⟩

/-- The region of a byte and the state behind it, given the byte that follows. `none` in place of
the region is the star of an opening `/*`. A closing parenthesis that closes nothing leaves the
depth at zero. -/
def step (w : Walk) (b : UInt8) (next : Option UInt8) : Option Region × Walk :=
  match w.mode with
  | .code =>
    if b = slash ∧ next = some slash then (some .lineComment, { w with mode := .lineComment })
    else if b = slash ∧ next = some star then (some .blockComment, { w with mode := .blockOpening })
    else match Quote.ofByte? b with
      | some q => (some q.region, { w with mode := .literal q false })
      | none =>
        if b = openParen then (some .code, { w with depth := w.depth + 1 })
        else if b = closeParen then (some .code, { w with depth := w.depth - 1 })
        else (some .code, w)
  | .literal q true => (some q.region, { w with mode := .literal q false })
  | .literal q false =>
    if b = backslash then (some q.region, { w with mode := .literal q true })
    else if b = q.byte then (some q.region, { w with mode := .code })
    else if b = lineFeed ∧ q ≠ .template then (some .code, { w with mode := .code })
    else (some q.region, w)
  | .lineComment =>
    if b = lineFeed then (some .code, { w with mode := .code }) else (some .lineComment, w)
  | .blockOpening => (none, { w with mode := .blockComment })
  | .blockComment =>
    if b = star ∧ next = some slash then (some .blockComment, { w with mode := .blockClosing })
    else (some .blockComment, w)
  | .blockClosing => (some .blockComment, { w with mode := .code })

/-- The tokens of a walk over `bytes`, the first of which has offset `offset`. -/
def tokens (w : Walk) (offset : Nat) : List UInt8 → List Token
  | [] => []
  | b :: rest =>
    let (region, w') := w.step b rest.head?
    match region with
    | some r => ⟨offset, b, r, w.depth⟩ :: w'.tokens (offset + 1) rest
    | none => w'.tokens (offset + 1) rest

end Walk

/-- The tokens of the walk over `bytes` that starts at `offset`, which is taken to be in code. -/
def tokensFrom (bytes : List UInt8) (offset : Nat) : List Token :=
  Walk.start.tokens offset (bytes.drop offset)

end ManifestSync.Source
