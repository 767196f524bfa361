import ManifestSync.Source.Walk

/-!
# The region of every byte

`regions` lists the region of each byte of a source text, as the walk from its start sees it. The
star of an opening `/*`, for which the walk has no token, counts as part of its comment: it is found
as a `*` right behind a `/` that belongs to a block comment.
-/

namespace ManifestSync.Source

/-- The region of each byte that a walk sees, with `code` for a byte without a token. -/
def Walk.regions (w : Walk) : List UInt8 → List Region
  | [] => []
  | b :: rest =>
    let (region, w') := w.step b rest.head?
    region.getD .code :: w'.regions rest

/-- Counts each `*` right behind a `/` of a block comment as block comment. `behind` tells whether
the byte before the list is such a `/`. -/
def absorbStars (behind : Bool) : List (UInt8 × Region) → List Region
  | [] => []
  | (b, r) :: rest =>
    let r' := if behind && b == star then .blockComment else r
    r' :: absorbStars (r' == .blockComment && b == slash) rest

/-- The region of each byte of a source text. -/
def regions (bytes : List UInt8) : List Region :=
  absorbStars false (bytes.zip (Walk.start.regions bytes))

/-- The region at an offset; beyond the end of the text it is code. -/
def regionAt (map : List Region) (offset : Nat) : Region :=
  map.getD offset .code

end ManifestSync.Source
