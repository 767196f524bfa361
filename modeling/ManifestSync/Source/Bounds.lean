import ManifestSync.Source.Walk

/-!
# Bounds of blocks, calls and statements

Four searches over the tokens of a walk: where a block closes, where the body of a call opens, where
a call closes, and where a statement ends. All of them look at code only, so that brackets in
literals and comments never count.
-/

namespace ManifestSync.Source

/-- The byte of an opening brace. -/
def openBrace : UInt8 := 123

/-- The byte of a closing brace. -/
def closeBrace : UInt8 := 125

/-- The byte of a semicolon. -/
def semicolon : UInt8 := 59

/-- The byte of a full stop. -/
def fullStop : UInt8 := 46

/-- The blanks of ASCII that separate words: space, tab, line feed, form feed, carriage return. -/
def isAsciiBlank (b : UInt8) : Bool :=
  b == 32 || b == 9 || b == 10 || b == 12 || b == 13

/-- What a search makes of a token. -/
inductive Verdict (σ : Type) where
  /-- The search ends at an offset. -/
  | found (offset : Nat)
  /-- The search ends without a result. -/
  | fail
  /-- The search goes on with a new state. -/
  | next (state : σ)

/-- The result of a search over the tokens of a walk; none if it fails or the text ends first. -/
def Walk.search {σ : Type} (visit : σ → Token → Verdict σ) (w : Walk) (offset : Nat) (state : σ) :
    List UInt8 → Option Nat
  | [] => none
  | b :: rest =>
    let (region, w') := w.step b rest.head?
    match region with
    | none => w'.search visit (offset + 1) state rest
    | some r =>
      match visit state ⟨offset, b, r, w.depth⟩ with
      | .found n => some n
      | .fail => none
      | .next state' => w'.search visit (offset + 1) state' rest

/-- The result of a search over the tokens of the walk that starts at `offset`. -/
def searchFrom {σ : Type} (visit : σ → Token → Verdict σ) (state : σ) (bytes : List UInt8)
    (offset : Nat) : Option Nat :=
  Walk.start.search visit offset state (bytes.drop offset)

/-- Counts open braces and ends at the one that brings their number to zero. Braces count in code
and outside of parentheses that the walk has seen opening. -/
def closingBrace (depth : Nat) (t : Token) : Verdict Nat :=
  if t.region != .code || t.depth != 0 then .next depth
  else if t.byte = openBrace then .next (depth + 1)
  else if t.byte = closeBrace then if depth ≤ 1 then .found t.offset else .next (depth - 1)
  else .next depth

/-- The offset of the brace that closes the one at `opening`. -/
def blockEnd (bytes : List UInt8) (opening : Nat) : Option Nat :=
  searchFrom closingBrace 1 bytes (opening + 1)

/-- The last two bytes of code that are not blank; a literal stands in as a double quote. -/
structure Trail where
  /-- The byte before the last one. -/
  earlier : UInt8
  /-- The last byte. -/
  last : UInt8
  deriving DecidableEq, Repr

namespace Trail

/-- The trail at the start of a call's arguments. -/
def start : Trail := ⟨32, 32⟩

/-- The trail behind one more byte. -/
def push (t : Trail) (b : UInt8) : Trail := ⟨t.last, b⟩

/-- Whether the trail introduces a function body: it ends with `)` or with `=>`. -/
def introducesBody (t : Trail) : Bool :=
  t.last == closeParen || (t.earlier == 61 && t.last == 62)

end Trail

/-- Ends at the first brace outside of parentheses that stands behind a trail which introduces a
body, and fails at the call's own closing parenthesis. -/
def bodyBrace (trail : Trail) (t : Token) : Verdict Trail :=
  if t.region.isComment then .next trail
  else if t.region.isString then .next (trail.push Quote.double.byte)
  else if t.depth = 0 ∧ t.byte = closeParen then .fail
  else if t.depth = 0 ∧ t.byte = openBrace ∧ trail.introducesBody then .found t.offset
  else .next (if isAsciiBlank t.byte then trail else trail.push t.byte)

/-- The offset of the brace that opens the function body of a call whose arguments start at `start`.
An object literal follows a comma and is passed over. -/
def bodyOpen (bytes : List UInt8) (start : Nat) : Option Nat :=
  searchFrom bodyBrace .start bytes start

/-- Ends at the first closing parenthesis that no parenthesis of the walk opens. -/
def closingParen (_ : Unit) (t : Token) : Verdict Unit :=
  if t.isCode closeParen && t.depth == 0 then .found t.offset else .next ()

/-- The offset of the parenthesis that closes a call whose arguments start at `start`. -/
def callEnd (bytes : List UInt8) (start : Nat) : Option Nat :=
  searchFrom closingParen () bytes start

/-- Whether the text from an offset on, blanks passed over, goes on with a full stop: then the line
break before it does not end a statement. -/
def continuesChain (bytes : List UInt8) (offset : Nat) : Bool :=
  ((bytes.drop offset).find? (!isAsciiBlank ·)) == some fullStop

/-- Ends at a semicolon, at a bracket that closes the enclosing scope, or at a line break that no
chain continues. -/
def statementStop (bytes : List UInt8) (_ : Unit) (t : Token) : Verdict Unit :=
  if t.region != .code || t.depth != 0 then .next ()
  else if t.byte = semicolon ∨ t.byte = closeBrace ∨ t.byte = closeParen then .found t.offset
  else if t.byte = lineFeed ∧ !continuesChain bytes t.offset then .found t.offset
  else .next ()

/-- The end of the statement that starts at `start`; without a stop it is the end of the text. -/
def statementEnd (bytes : List UInt8) (start : Nat) : Nat :=
  (searchFrom (statementStop bytes) () bytes start).getD bytes.length

end ManifestSync.Source
