/-!
# Texts as characters and as bytes

A text is a list of characters; positions in it are offsets into its UTF-8 encoding. `utf8` gives
the bytes; `dropBytes?` and `slice?` cut a text at byte offsets and refuse an offset that lies
inside a character or beyond the end. `decode` reads bytes back, one entry for each character and one for
each maximal ill-formed sequence, so that strict and lenient reading are two views of one result.
-/

namespace ManifestSync.Text

/-- The UTF-8 encoding of a text. -/
def utf8 (text : List Char) : List UInt8 :=
  text.flatMap String.utf8EncodeChar

/-- The number of bytes that a text occupies in UTF-8. -/
def byteLength : List Char → Nat
  | [] => 0
  | c :: rest => c.utf8Size + byteLength rest

/-- The text behind its first `n` bytes, if these are whole characters. -/
def dropBytes? : Nat → List Char → Option (List Char)
  | 0, text => some text
  | _ + 1, [] => none
  | n + 1, c :: rest => if c.utf8Size ≤ n + 1 then dropBytes? (n + 1 - c.utf8Size) rest else none

/-- The characters that start within the first `n` bytes of a text. -/
def takeBytes : Nat → List Char → List Char
  | 0, _ => []
  | _ + 1, [] => []
  | n + 1, c :: rest => c :: takeBytes (n + 1 - c.utf8Size) rest

/-- The text between two byte offsets, if they are in order and both are character boundaries. -/
def slice? (text : List Char) (start stop : Nat) : Option (List Char) :=
  if stop < start then none
  else do
    let tail ← dropBytes? start text
    let _ ← dropBytes? (stop - start) tail
    return takeBytes (stop - start) tail

/-- The largest character boundary of `text` that is at most `offset`. -/
def floorBoundary : List Char → Nat → Nat
  | [], _ => 0
  | c :: rest, offset =>
    if c.utf8Size ≤ offset then c.utf8Size + floorBoundary rest (offset - c.utf8Size) else 0

/-- A character of several bytes that is being read: how many bytes are still to come, the range in
which the next one lies, and the bits read so far. -/
structure Partial where
  needed : Nat
  low : UInt8
  high : UInt8
  bits : Nat
  deriving DecidableEq, Repr

/-- What a lead byte announces; `none` for a byte that leads nothing. The range of the second byte
excludes overlong forms, surrogates and code points beyond U+10FFFF. -/
def Partial.ofLead? (b : UInt8) : Option Partial :=
  if 0xC2 ≤ b ∧ b ≤ 0xDF then some ⟨1, 0x80, 0xBF, b.toNat - 0xC0⟩
  else if b = 0xE0 then some ⟨2, 0xA0, 0xBF, 0⟩
  else if b = 0xED then some ⟨2, 0x80, 0x9F, 0xD⟩
  else if 0xE1 ≤ b ∧ b ≤ 0xEF then some ⟨2, 0x80, 0xBF, b.toNat - 0xE0⟩
  else if b = 0xF0 then some ⟨3, 0x90, 0xBF, 0⟩
  else if 0xF1 ≤ b ∧ b ≤ 0xF3 then some ⟨3, 0x80, 0xBF, b.toNat - 0xF0⟩
  else if b = 0xF4 then some ⟨3, 0x80, 0x8F, 4⟩
  else none

/-- Reads one byte at a character boundary: what it completes, and the character it leaves open. -/
def decodeFirst (b : UInt8) : List (Option Char) × Option Partial :=
  if b < 0x80 then ([some (Char.ofNat b.toNat)], none)
  else match Partial.ofLead? b with
    | none => ([none], none)
    | some p => ([], some p)

/-- Reads one byte behind an open character. A byte that does not fit ends the open character as
ill formed and is read afresh. -/
def decodeNext (p : Partial) (b : UInt8) : List (Option Char) × Option Partial :=
  if p.low ≤ b ∧ b ≤ p.high then
    let bits := p.bits * 64 + (b.toNat - 0x80)
    if p.needed ≤ 1 then ([some (Char.ofNat bits)], none)
    else ([], some ⟨p.needed - 1, 0x80, 0xBF, bits⟩)
  else
    let (read, pending) := decodeFirst b
    (none :: read, pending)

/-- Reads UTF-8 behind an open character, if there is one. Every character gives `some`; every
maximal ill-formed sequence (a byte that leads nothing, or a lead byte with the continuation bytes
that fit it) gives one `none`. -/
def decodeFrom : Option Partial → List UInt8 → List (Option Char)
  | none, [] => []
  | some _, [] => [none]
  | none, b :: rest =>
    let (read, pending) := decodeFirst b
    read ++ decodeFrom pending rest
  | some p, b :: rest =>
    let (read, pending) := decodeNext p b
    read ++ decodeFrom pending rest

/-- Reads UTF-8 from its start. -/
def decode (bytes : List UInt8) : List (Option Char) :=
  decodeFrom none bytes

/-- The text that bytes encode, if they are well formed. -/
def decode? (bytes : List UInt8) : Option (List Char) :=
  (decode bytes).mapM id

/-- The text that bytes encode, with U+FFFD in place of each ill-formed sequence. -/
def decodeLossy (bytes : List UInt8) : List Char :=
  (decode bytes).map (·.getD '\uFFFD')

end ManifestSync.Text
