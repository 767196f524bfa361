/-!
# Regions of a source text

Every byte of a script belongs to code, to one of three kinds of string literal, or to one of two
kinds of comment.
-/

namespace ManifestSync.Source

/-- What a byte of a source text belongs to. -/
inductive Region where
  | code
  | singleQuote
  | doubleQuote
  | template
  | lineComment
  | blockComment
  deriving DecidableEq, Repr, Inhabited

namespace Region

/-- Whether a region is a string literal. -/
def isString : Region → Bool
  | singleQuote | doubleQuote | template => true
  | _ => false

/-- Whether a region is a comment. -/
def isComment : Region → Bool
  | lineComment | blockComment => true
  | _ => false

end Region

end ManifestSync.Source
