import ManifestSync.Text.Word
import ManifestSync.Text.Blank
import ManifestSync.Text.Utf8

/-!
# Patterns

A pattern describes texts and says, of all the ways in which it can match at a position, which one
comes first: of two alternatives the left one, of two numbers of repetitions the larger one.
`Pattern.ends` lists the positions behind all matches in that order; the match of a pattern at a
position is the first of them.

A position knows the text on both of its sides, so that a pattern can ask for a word boundary, and
the number of bytes before it, which is how matches are reported.
-/

namespace ManifestSync

/-- A position in a text. -/
structure Cursor where
  /-- Number of bytes before the position. -/
  offset : Nat
  /-- The text before the position, its last character first. -/
  behind : List Char
  /-- The text from the position on. -/
  rest : List Char
  deriving DecidableEq, Repr

namespace Cursor

/-- The position at the start of a text. -/
def start (text : List Char) : Cursor := ⟨0, [], text⟩

/-- Whether exactly one of the characters around the position is a word character. -/
def atBoundary (c : Cursor) : Bool :=
  c.behind.head?.any Text.isWord != c.rest.head?.any Text.isWord

/-- The text from one position to a later one. -/
def textTo (c d : Cursor) : List Char :=
  Text.takeBytes (d.offset - c.offset) c.rest

end Cursor

/-- A pattern for texts. -/
inductive Pattern where
  /-- The empty text. -/
  | empty
  /-- One character of a class. -/
  | one (p : Char → Bool)
  /-- The empty text at a word boundary. -/
  | boundary
  /-- The empty text at the start of the whole text. -/
  | atStart
  /-- The empty text at the end of the whole text. -/
  | atEnd
  /-- One pattern and then another. -/
  | seq (a b : Pattern)
  /-- One pattern or, failing that, another. -/
  | alt (a b : Pattern)
  /-- Any number of repetitions, the more the better. -/
  | many (a : Pattern)
  /-- A pattern whose span is kept under a number. -/
  | group (n : Nat) (a : Pattern)

/-- The positions at both ends of a part of a text. -/
structure Span where
  start : Cursor
  stop : Cursor
  deriving DecidableEq, Repr

/-- The text between the ends of a span. -/
def Span.text (s : Span) : List Char := s.start.textTo s.stop

/-- A partial match: the position reached and the spans kept so far, the latest first. -/
structure Reached where
  cursor : Cursor
  groups : List (Nat × Span)

namespace Pattern

instance : Append Pattern := ⟨seq⟩

/-- A pattern or, failing that, the empty text. -/
def maybe (a : Pattern) : Pattern := .alt a .empty

/-- At least one repetition, the more the better. -/
def oneOrMore (a : Pattern) : Pattern := a ++ .many a

/-- One given character. -/
def char (c : Char) : Pattern := .one (· == c)

/-- A given text. -/
def text : List Char → Pattern
  | [] => .empty
  | c :: rest => char c ++ text rest

/-- The first of several patterns that matches. -/
def oneOf : List Pattern → Pattern
  | [] => .one fun _ => false
  | [a] => a
  | a :: rest => .alt a (oneOf rest)

/-- Any white space, the more the better. -/
def blanks : Pattern := .many (.one Text.isBlank)

/-- Up to `n` repetitions of a step from `r`, the more the better, each of which must move on; the
positions of `others` follow. -/
def repeated (step : Reached → List Reached) : Nat → Reached → List Reached → List Reached
  | 0, r, others => r :: others
  | n + 1, r, others =>
    (step r).foldr
      (fun t found =>
        if r.cursor.offset < t.cursor.offset then repeated step n t found else found)
      (r :: others)

/-- The positions behind all matches of a pattern from `r` on, the preferred one first. -/
def ends : Pattern → Reached → List Reached
  | .empty, r => [r]
  | .one p, r =>
    match r.cursor.rest with
    | [] => []
    | c :: rest =>
      if p c then
        [{ r with cursor := ⟨r.cursor.offset + c.utf8Size, c :: r.cursor.behind, rest⟩ }]
      else []
  | .boundary, r => if r.cursor.atBoundary then [r] else []
  | .atStart, r => if r.cursor.behind.isEmpty then [r] else []
  | .atEnd, r => if r.cursor.rest.isEmpty then [r] else []
  | .seq a b, r => (a.ends r).flatMap b.ends
  | .alt a b, r => a.ends r ++ b.ends r
  | .many a, r => repeated a.ends r.cursor.rest.length r []
  | .group n a, r =>
    (a.ends r).map fun t => { t with groups := (n, ⟨r.cursor, t.cursor⟩) :: t.groups }

end Pattern

/-- A match of a pattern in a text. -/
structure Match where
  /-- Where the match starts. -/
  start : Cursor
  /-- The position behind the match. -/
  stop : Cursor
  /-- The spans kept by the groups of the pattern. -/
  groups : List (Nat × Span)

namespace Match

/-- The text kept by a group, if the match went through it. -/
def group? (m : Match) (n : Nat) : Option (List Char) :=
  (m.groups.lookup n).map Span.text

end Match

namespace Pattern

/-- The match of a pattern at a position. -/
def matchAt? (p : Pattern) (c : Cursor) : Option Match :=
  (p.ends ⟨c, []⟩).head?.map fun r => ⟨c, r.cursor, r.groups⟩

end Pattern

end ManifestSync
