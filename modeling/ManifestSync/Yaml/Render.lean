import ManifestSync.Decimal.Text
import ManifestSync.Yaml.Quoting

/-!
# Writing a document

`Value.render` writes a value in block style. A mapping is indented by two columns, a sequence
stands in the same column as the keys of the mapping around it, and a collection behind a hyphen
begins on the same line. Empty collections are brackets. A key that takes several lines or more than
128 bytes, or is a collection, stands behind a question mark.
-/

namespace ManifestSync.Yaml

/-- A part of the output: text, or the begin of a line with some spaces in front. -/
inductive Piece where
  | text (chars : List Char)
  | line (indent : Nat)

/-- The text of some pieces. A line is begun with a line feed, unless the text before it ends with a
line break. -/
def Piece.join : (fresh : Bool) → List Piece → List Char
  | _, [] => []
  | fresh, .text chars :: rest =>
    chars ++ join (match chars.getLast? with
      | some c => isBreak c
      | none => fresh) rest
  | fresh, .line indent :: rest =>
    (if fresh then [] else ['\n']) ++ indentation indent ++ join (fresh && indent == 0) rest

/-- What stands in front of a value. -/
inductive Lead where
  /-- A hyphen, a question mark or the colon of a long key: a collection begins on the same line. -/
  | mark
  /-- A key: a sequence is not indented more than the key. -/
  | key
  /-- A tag. -/
  | tag
  deriving DecidableEq, Repr

namespace Value

/-- A scalar or an empty collection; `none` for other collections. -/
def flat? (inKey : Bool) (indent : Nat) : Value → Option (List Char)
  | .null => some "null".toList
  | .bool b => some (toString b).toList
  | .int n => some (toString n).toList
  | .float x => some x.render
  | .string s => some (writeAs (styleOf inKey s.toList) indent s.toList)
  | .seq [] => some ['[', ']']
  | .map [] => some ['{', '}']
  | _ => none

/-- A key that can stand on one line with its value. -/
def shortKey? (key : Value) : Option (List Char) :=
  match key with
  | .string s =>
    if s.toList.any endsLine || 128 < s.utf8ByteSize then none else key.flat? true 0
  | _ => key.flat? true 0

/-- The column of a collection behind a lead in a collection at a column. -/
def innerIndent (lead : Lead) (isSeq : Bool) (outer : Nat) : Nat :=
  if lead = .key && isSeq then outer else outer + 2

/-- The begin of the first item of a collection: on the same line behind a mark. -/
def begin (lead : Lead) (indent : Nat) : Piece :=
  if lead = .mark then .text [' '] else .line indent

mutual

/-- A value behind a lead, in a collection at a column. -/
def pieces (lead : Lead) (outer : Nat) : Value → List Piece
  | .seq (item :: items) =>
    let indent := innerIndent lead true outer
    itemPieces indent (begin lead indent) (item :: items)
  | .map (pair :: pairs) =>
    let indent := innerIndent lead false outer
    pairPieces indent (begin lead indent) (pair :: pairs)
  | .tagged tag v =>
    .text (' ' :: tag.toList) :: pieces (if lead = .key then .key else .tag) outer v
  | v => [.text (' ' :: (v.flat? false (outer + 2)).getD [])]

/-- The items of a sequence at a column; `first` begins the first one. -/
def itemPieces (indent : Nat) (first : Piece) : List Value → List Piece
  | [] => []
  | item :: rest =>
    first :: .text ['-'] :: pieces .mark indent item ++ itemPieces indent (.line indent) rest

/-- The pairs of a mapping at a column; `first` begins the first one. -/
def pairPieces (indent : Nat) (first : Piece) : List (Value × Value) → List Piece
  | [] => []
  | (key, v) :: rest =>
    first :: (match key.shortKey? with
      | some text => .text (text ++ [':']) :: pieces .key indent v
      | none =>
        .text ['?'] :: pieces .mark indent key
          ++ .line indent :: .text [':'] :: pieces .mark indent v)
      ++ pairPieces indent (.line indent) rest

end

/-- A document that holds a value. -/
def render (v : Value) : List Char :=
  let pieces := match v with
    | .seq (item :: items) => itemPieces 0 (.line 0) (item :: items)
    | .map (pair :: pairs) => pairPieces 0 (.line 0) (pair :: pairs)
    | .tagged tag v => .text tag.toList :: pieces .key 0 v
    | v => [.text ((v.flat? false 2).getD [])]
  Piece.join true (pieces ++ [.line 0])

end Value

end ManifestSync.Yaml
