import ManifestSync.Pattern.Search

/-!
# Annotations

An annotation is an `@` word with a value behind it, such as `@jira SHOP-12`. `annotations` finds
all of them in a text, whatever region they stand in; whoever uses them looks at the region.
-/

namespace ManifestSync.Scan

open Pattern (char text oneOf)

/-- What an annotation is about. -/
inductive AnnotationKind where
  | bug
  | priority
  | feature
  | skip
  | description
  deriving DecidableEq, Repr, Inhabited

namespace AnnotationKind

/-- All kinds, in the order in which annotations at one offset are listed. -/
def all : List AnnotationKind := [.bug, .priority, .feature, .skip, .description]

/-- The word for a kind. -/
def name : AnnotationKind → String
  | .bug => "bug"
  | .priority => "priority"
  | .feature => "feature"
  | .skip => "skip"
  | .description => "description"

/-- An `@` word, followed by something that is not part of a word. -/
def word (names : List String) : Pattern :=
  char '@' ++ oneOf (names.map fun name => text name.toList) ++ .boundary

/-- What may stand between an `@` word and its value. -/
def gap : Pattern :=
  .many (.one fun c => c == ' ' || c == '\t' || c == ':')

/-- A value (group 1) that starts with a letter or digit of ASCII and goes on with word characters
and the given others. -/
def value (others : List Char) : Pattern :=
  gap ++ .group 1
    (.one Text.isAsciiAlphanumeric ++ .many (.one fun c => Text.isWord c || others.contains c))

/-- The annotations of a kind; the value is group 1. -/
def pattern : AnnotationKind → Pattern
  | .bug => word ["jira", "bug", "issue"] ++ value ['.', '#', '/', '-']
  | .priority => word ["priority"] ++ value ['-']
  | .feature => word ["feature"] ++ value ['.', '/', '-']
  | .skip => word ["skip"]
  | .description =>
    word ["description"] ++ gap ++ .group 1 (Pattern.oneOrMore (.one fun c => c != '\r' && c != '\n'))

end AnnotationKind

/-- An annotation and where it stands. -/
structure Annotation where
  kind : AnnotationKind
  /-- Offset of the `@`. -/
  offset : Nat
  /-- The value without white space at its ends; empty if the kind has none. -/
  value : List Char
  deriving DecidableEq, Repr

/-- The annotations of one kind, in source order. -/
def annotationsOf (source : List Char) (kind : AnnotationKind) : List Annotation :=
  (kind.pattern.findAll source).map fun m =>
    ⟨kind, m.start.offset, Text.trim ((m.group? 1).getD [])⟩

/-- All annotations of a text by offset. -/
def annotations (source : List Char) : List Annotation :=
  (AnnotationKind.all.flatMap (annotationsOf source)).mergeSort (·.offset ≤ ·.offset)

end ManifestSync.Scan
