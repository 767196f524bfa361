import ManifestSync.Pattern.Basic

/-!
# Searching and replacing

A search goes through a text from left to right, takes the first match it meets, and goes on behind
that match, so that the matches it finds do not overlap.
-/

namespace ManifestSync.Pattern

/-- The matches in a text that start at or behind the offset `resume`. The characters between the
current position and `resume` belong to a match already found. -/
def findFrom (p : Pattern) (behind : List Char) (offset resume : Nat) : List Char → List Match
  | [] => []
  | c :: rest =>
    let next := fun resume => p.findFrom (c :: behind) (offset + c.utf8Size) resume rest
    if offset < resume then next resume
    else match p.matchAt? ⟨offset, behind, c :: rest⟩ with
      | none => next resume
      | some m => m :: next m.stop.offset

/-- The matches in a text, from left to right and without overlap. -/
def findAll (p : Pattern) (text : List Char) : List Match :=
  p.findFrom [] 0 0 text

/-- The first match in a text. -/
def find? (p : Pattern) (text : List Char) : Option Match :=
  (p.findAll text).head?

/-- The text with `replacement` in place of every match that starts at or behind the offset
`resume`; the characters before `resume` belong to a match already replaced. -/
def replaceFrom (p : Pattern) (replacement : List Char) (behind : List Char)
    (offset resume : Nat) : List Char → List Char
  | [] => []
  | c :: rest =>
    let next := fun resume =>
      p.replaceFrom replacement (c :: behind) (offset + c.utf8Size) resume rest
    if offset < resume then next resume
    else match p.matchAt? ⟨offset, behind, c :: rest⟩ with
      | none => c :: next resume
      | some m => replacement ++ next m.stop.offset

/-- The text with `replacement` in place of every match. -/
def replaceAll (p : Pattern) (replacement text : List Char) : List Char :=
  p.replaceFrom replacement [] 0 0 text

/-- The text with `replacement` in place of the first match. -/
def replaceFirst (p : Pattern) (replacement text : List Char) : List Char :=
  match p.find? text with
  | none => text
  | some m => (Cursor.start text).textTo m.start ++ replacement ++ m.stop.rest

end ManifestSync.Pattern
